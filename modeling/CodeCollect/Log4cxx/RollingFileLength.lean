import CodeCollect.Library.System
import CodeCollect.Log4cxx.FixedWindowArchives

namespace CodeCollect.Log4cxx

open CodeCollect.Library

/-- A writer has encoded these texts. -/
abbrev Bytes := List UInt8

/-- The appender writes its texts as they are, and the sizes of all other files are given. -/
def Content.size (sizes : Content Bytes → Nat) : Content Bytes → Nat
  | .empty => 0
  | .record content .byteOrderMark => content.size sizes + 2
  | .record content (.event text) => content.size sizes + text.length
  | content => sizes content

/-- One call sees the texts of the layout and the fates of the file operations. None throws. -/
structure RollingCall where
  header : Bytes
  footer : Bytes
  fails : FileOperation → Bool
  started : ∀ source destination, fails (.startProcess source destination) = false

/-- The limit of a size based trigger is absent when another trigger decides for each event. -/
structure RollingFileAppenderSkeleton where
  fileName : LogString
  fileAppend : Bool
  utf16 : Bool
  closed : Bool
  writer : Option LogString
  rollingPolicy : FixedWindowRollingPolicy
  maxFileSize : Option Nat
  fileLength : Nat
  files : Files (Content Bytes)

namespace RollingFileAppenderSkeleton

/-- A `CountingOutputStream` tells the appender how many bytes pass through it. -/
def write (self : RollingFileAppenderSkeleton) (text : Bytes) : RollingFileAppenderSkeleton :=
  match self.writer with
  | none => self
  | some path =>
      { self with
        files := RollingFileAppender.appendRecord self.files path (.event text)
        fileLength := self.fileLength + text.length }

def closeWriter (self : RollingFileAppenderSkeleton) (call : RollingCall) :
    RollingFileAppenderSkeleton :=
  match self.writer with
  | none => self
  | some _ => { self.write call.footer with writer := none }

def setFile (self : RollingFileAppenderSkeleton) (call : RollingCall) (filename : LogString)
    (append : Bool) : RollingFileAppenderSkeleton :=
  let closed := self.closeWriter call
  let writeBOM := closed.utf16 && (!append || !File.exists' closed.files filename)
  let outStream := RollingFileAppender.openStream closed.files filename append
  -- The mark goes to the stream of the file and not to the one that counts.
  let marked :=
    if writeBOM then RollingFileAppender.appendRecord outStream filename .byteOrderMark
    else outStream
  let opened : RollingFileAppenderSkeleton :=
    { closed with
      files := marked
      writer := some filename
      fileAppend := append
      fileName := filename }
  opened.write call.header

/-- A missing file has no length. -/
def length (sizes : Content Bytes → Nat) (files : Files (Content Bytes)) (path : LogString) :
    Nat :=
  (files path).elim 0 (Content.size sizes)

/-- The result is missing when the pattern of the policy has no index. -/
def activateOptions (sizes : Content Bytes → Nat) (self : RollingFileAppenderSkeleton)
    (call : RollingCall) : Option RollingFileAppenderSkeleton :=
  self.rollingPolicy.activateOptions.map fun policy =>
    let (policy, description) := policy.initializePolicy self.fileName self.fileAppend
    let described : RollingFileAppenderSkeleton :=
      { self with
        rollingPolicy := policy
        fileName := description.activeFileName
        fileAppend := description.append
        fileLength :=
          if description.append then length sizes self.files description.activeFileName else 0 }
    if described.fileName.isEmpty then described
    else described.setFile call described.fileName described.fileAppend

/-- The length starts again before the second action runs. -/
def rolloverSameFile (sizes : Content Bytes → Nat) (self : RollingFileAppenderSkeleton)
    (call : RollingCall) (description : RolloverDescription) : RollingFileAppenderSkeleton :=
  let closed := self.closeWriter call
  let synchronous := RollingFileAppender.perform call.fails closed.files description.synchronous
  if synchronous.1 = some true then
    let asynchronous :=
      RollingFileAppender.perform call.fails synchronous.2 description.asynchronous
    let acted : RollingFileAppenderSkeleton :=
      { closed with
        files := asynchronous.2
        fileLength :=
          if description.append then length sizes synchronous.2 description.activeFileName
          else 0 }
    if asynchronous.1.isNone then acted
    else acted.setFile call description.activeFileName description.append
  else
    let unchanged : RollingFileAppenderSkeleton := { closed with files := synchronous.2 }
    unchanged.setFile call description.activeFileName true

/-- A description with another file opens it before the footer goes to the old file. -/
def rolloverOtherFile (sizes : Content Bytes → Nat) (self : RollingFileAppenderSkeleton)
    (call : RollingCall) (description : RolloverDescription) : RollingFileAppenderSkeleton :=
  let opened : RollingFileAppenderSkeleton :=
    { self with
      files :=
        RollingFileAppender.openStream self.files description.activeFileName description.append }
  let switched : RollingFileAppenderSkeleton :=
    { opened.closeWriter call with
      fileName := description.activeFileName
      writer := some description.activeFileName }
  let synchronous := RollingFileAppender.perform call.fails switched.files description.synchronous
  if synchronous.1 = some true then
    let asynchronous :=
      RollingFileAppender.perform call.fails synchronous.2 description.asynchronous
    let acted : RollingFileAppenderSkeleton :=
      { switched with
        files := asynchronous.2
        fileLength :=
          if description.append then length sizes synchronous.2 description.activeFileName
          else 0 }
    if asynchronous.1.isNone then acted else acted.write call.header
  else
    let unchanged : RollingFileAppenderSkeleton := { switched with files := synchronous.2 }
    unchanged.write call.header

def rollover (sizes : Content Bytes → Nat) (self : RollingFileAppenderSkeleton)
    (call : RollingCall) : RollingFileAppenderSkeleton :=
  match self.rollingPolicy.rollover call.fails self.files self.fileName with
  | none => self
  | some (none, files) => { self with files }
  | some (some description, files) =>
      let rolling : RollingFileAppenderSkeleton := { self with files }
      if description.activeFileName = self.fileName then
        rolling.rolloverSameFile sizes call description
      else rolling.rolloverOtherFile sizes call description

def isTriggeringEvent (self : RollingFileAppenderSkeleton) (triggers : Bool) : Bool :=
  match self.maxFileSize with
  | some maxFileSize => decide (maxFileSize ≤ self.fileLength)
  | none => triggers

def checkEntryConditions (self : RollingFileAppenderSkeleton) : Bool :=
  !self.closed && self.writer.isSome

/-- The layout has formatted the event to this text. -/
def subAppend (sizes : Content Bytes → Nat) (self : RollingFileAppenderSkeleton)
    (call : RollingCall) (text : Bytes) (triggers : Bool) : RollingFileAppenderSkeleton :=
  let rolled := if self.isTriggeringEvent triggers then self.rollover sizes call else self
  rolled.write text

def append (sizes : Content Bytes → Nat) (self : RollingFileAppenderSkeleton)
    (call : RollingCall) (text : Bytes) (triggers : Bool) : RollingFileAppenderSkeleton :=
  if self.checkEntryConditions then self.subAppend sizes call text triggers else self

/-- The program may also ask for a rollover on its own. -/
inductive Request where
  | append (call : RollingCall) (text : Bytes) (triggers : Bool)
  | rollover (call : RollingCall)

def next (sizes : Content Bytes → Nat) (self : RollingFileAppenderSkeleton) :
    Request → RollingFileAppenderSkeleton
  | .append call text triggers => self.append sizes call text triggers
  | .rollover call => self.rollover sizes call

/-- An activated appender answers all requests. -/
def system (sizes : Content Bytes → Nat) (start : RollingFileAppenderSkeleton) :
    System RollingFileAppenderSkeleton Request where
  initial := start
  next self request := some (self.next sizes request)

/-- The file holds so many bytes more than are known. -/
def Off (sizes : Content Bytes → Nat) (files : Files (Content Bytes)) (path : LogString)
    (known drift : Nat) : Prop :=
  ∃ content, files path = some content ∧ content.size sizes = known + drift

/-- The open file holds so many bytes more than the appender has counted. -/
structure Drifts (sizes : Content Bytes → Nat) (appender : RollingFileAppenderSkeleton)
    (drift : Nat) : Prop where
  opened : appender.writer = some appender.fileName
  off : Off sizes appender.files appender.fileName appender.fileLength drift

section Steps

variable {sizes : Content Bytes → Nat} {self : RollingFileAppenderSkeleton} {call : RollingCall}
  {files : Files (Content Bytes)} {path : LogString} {known drift : Nat}

theorem Off.event (off : Off sizes files path known drift) (text : Bytes) :
    Off sizes (RollingFileAppender.appendRecord files path (.event text)) path
      (known + text.length) drift := by
  obtain ⟨content, found, size⟩ := off
  refine ⟨content.record (.event text), RollingFileAppender.appendRecord_self found, ?_⟩
  rw [Content.size, size]
  omega

theorem Off.byteOrderMark (off : Off sizes files path known drift) :
    Off sizes (RollingFileAppender.appendRecord files path .byteOrderMark) path known
      (drift + 2) := by
  obtain ⟨content, found, size⟩ := off
  refine ⟨content.record .byteOrderMark, RollingFileAppender.appendRecord_self found, ?_⟩
  rw [Content.size, size, Nat.add_assoc]

theorem Off.put (sizes : Content Bytes → Nat) (files : Files (Content Bytes))
    (path : LogString) : Off sizes (files.put path .empty) path 0 0 :=
  ⟨.empty, Function.update_self .., rfl⟩

/-- Every text of the writer is counted. -/
theorem Drifts.write (drifts : Drifts sizes self drift) (text : Bytes) :
    Drifts sizes (self.write text) drift := by
  have written : self.write text =
      { self with
        files := RollingFileAppender.appendRecord self.files self.fileName (.event text)
        fileLength := self.fileLength + text.length } := by
    rw [RollingFileAppenderSkeleton.write, drifts.opened]
  rw [written]
  exact ⟨drifts.opened, drifts.off.event text⟩

/-- The footer is counted before the writer is gone. -/
theorem closeWriter_eq (opened : self.writer = some path) :
    self.closeWriter call =
      { self with
        writer := none
        files := RollingFileAppender.appendRecord self.files path (.event call.footer)
        fileLength := self.fileLength + call.footer.length } := by
  rw [closeWriter, write, opened]

/-- Only the byte order mark of a new file is not counted. -/
theorem setFile_drifts (unopened : self.writer = none) {append : Bool}
    (off : Off sizes (RollingFileAppender.openStream self.files path append) path
      self.fileLength drift) :
    Drifts sizes (self.setFile call path append)
      (if self.utf16 && (!append || !File.exists' self.files path) then drift + 2
        else drift) := by
  have closed : self.closeWriter call = self := by rw [closeWriter, unopened]
  rw [setFile, closed]
  apply Drifts.write
  refine ⟨rfl, ?_⟩
  dsimp only
  split
  · exact off.byteOrderMark
  · exact off

/-- An appender that goes on with an existing file writes no mark. -/
theorem setFile_append (unopened : self.writer = none)
    (off : Off sizes self.files path self.fileLength drift) :
    Drifts sizes (self.setFile call path true) drift := by
  obtain ⟨content, found, size⟩ := off
  have kept : Off sizes (RollingFileAppender.openStream self.files path true) path
      self.fileLength drift := by
    refine ⟨content, ?_, size⟩
    rw [RollingFileAppender.openStream, if_pos rfl, found]
    exact Function.update_self ..
  have drifts := @setFile_drifts _ _ call _ _ unopened _ kept
  rwa [show File.exists' self.files path = true by rw [File.exists', found]; rfl,
    Bool.not_true, Bool.or_self, Bool.and_false, if_neg Bool.false_ne_true] at drifts

/-- An appender that begins a file anew misses its mark. -/
theorem setFile_truncate (unopened : self.writer = none) (uncounted : self.fileLength = 0) :
    Drifts sizes (self.setFile call path false) (if self.utf16 then 2 else 0) := by
  have empty : Off sizes (RollingFileAppender.openStream self.files path false) path
      self.fileLength 0 := by
    rw [uncounted]
    exact Off.put sizes self.files path
  have drifts := @setFile_drifts _ _ call _ _ unopened _ empty
  rwa [Bool.not_false, Bool.true_or, Bool.and_true, Nat.zero_add] at drifts

/-- The policy makes room for the active file with these operations. -/
def purged (self : RollingFileAppenderSkeleton) (call : RollingCall) :
    Option (Moved LogString (Content Bytes)) :=
  FixedWindowRollingPolicy.purge self.rollingPolicy.fileNamePattern call.fails
    self.rollingPolicy.purgeStart self.rollingPolicy.maxIndex self.files

/-- The active file is to become this one, which may still be compressed. -/
def renameTo (self : RollingFileAppenderSkeleton) : LogString :=
  baseName self.rollingPolicy.suffixLength self.rollingPolicy.archiveName

/-- The purge of a rollover does not move, overwrite or delete the active file. -/
def Spares (self : RollingFileAppenderSkeleton) (call : RollingCall) : Prop :=
  ∀ after, self.purged call = some after → after.store self.fileName = self.files self.fileName

/-- The purge of a rollover is complete, and the active file can be renamed. -/
def Rolls (self : RollingFileAppenderSkeleton) (call : RollingCall) : Prop :=
  0 ≤ self.rollingPolicy.maxIndex ∧
    (∃ after, self.purged call = some after ∧ after.done = true) ∧
    call.fails (.renameTo self.fileName self.renameTo) = false

/-- The description of this policy keeps the active file and truncates it. -/
theorem rollover_eq (sizes : Content Bytes → Nat) (self : RollingFileAppenderSkeleton)
    (call : RollingCall) :
    self.rollover sizes call =
      if 0 ≤ self.rollingPolicy.maxIndex then
        match self.purged call with
        | none => self
        | some after =>
            let rolling : RollingFileAppenderSkeleton := { self with files := after.store }
            if after.done then
              rolling.rolloverSameFile sizes call
                ⟨self.fileName, false, some (.rename ⟨self.fileName, self.renameTo⟩),
                  compressAction self.rollingPolicy.suffixLength self.renameTo
                    self.rollingPolicy.archiveName⟩
            else rolling
      else self := by
  by_cases ready : 0 ≤ self.rollingPolicy.maxIndex
  · have described : self.rollingPolicy.rollover call.fails self.files self.fileName =
        (self.purged call).map fun after =>
          if after.done then
            (some ⟨self.fileName, false, some (.rename ⟨self.fileName, self.renameTo⟩),
              compressAction self.rollingPolicy.suffixLength self.renameTo
                self.rollingPolicy.archiveName⟩, after.store)
          else (none, after.store) := by
      rw [FixedWindowRollingPolicy.rollover, if_pos ready]
      rfl
    rw [rollover, described, if_pos ready]
    cases self.purged call with
    | none => rfl
    | some after =>
        cases done : after.done <;> simp [done]
  · rw [rollover, FixedWindowRollingPolicy.rollover, if_neg ready, if_neg ready]

/-- A failed rename goes on with the active file, and each other rollover begins it anew. -/
theorem rolloverSameFile_drifts {suffixLength : Nat} {renamed archive : LogString}
    (opened : self.writer = some self.fileName)
    (off : Off sizes self.files self.fileName self.fileLength drift) :
    Drifts sizes (self.rolloverSameFile sizes call
        ⟨self.fileName, false, some (.rename ⟨self.fileName, renamed⟩),
          compressAction suffixLength renamed archive⟩)
      (if call.fails (.renameTo self.fileName renamed) then drift
        else if self.utf16 then 2 else 0) := by
  obtain ⟨content, found, size⟩ := off.event call.footer
  cases failed : call.fails (.renameTo self.fileName renamed) with
  | true =>
      have refused : ¬ (FileRenameAction.fails call.fails ⟨self.fileName, renamed⟩ = false ∧
          RollingFileAppender.appendRecord self.files self.fileName (.event call.footer)
            self.fileName ≠ none) := by
        simp [FileRenameAction.fails, failed]
      simp only [rolloverSameFile, closeWriter_eq opened, RollingFileAppender.perform,
        Action.execute_rename, if_neg refused]
      exact setFile_append rfl ⟨content, found, size⟩
  | false =>
      have works : FileRenameAction.fails call.fails ⟨self.fileName, renamed⟩ = false ∧
          RollingFileAppender.appendRecord self.files self.fileName (.event call.footer)
            self.fileName ≠ none :=
        ⟨failed, by rw [found]; exact Option.some_ne_none _⟩
      have done : (RollingFileAppender.perform call.fails
          ((RollingFileAppender.appendRecord self.files self.fileName (.event call.footer)).move
            self.fileName renamed)
          (compressAction suffixLength renamed archive)).1 = some true := by
        cases chosen : compressAction suffixLength renamed archive with
        | none => rfl
        | some action =>
            rw [RollingFileAppender.perform, Action.execute_result call.fails chosen,
              call.started, if_neg Bool.false_ne_true]
            rw [Store.move_target, found]
            exact Option.some_ne_none _
      have renames : RollingFileAppender.perform call.fails
          (RollingFileAppender.appendRecord self.files self.fileName (.event call.footer))
          (some (.rename ⟨self.fileName, renamed⟩)) =
            (some true, (RollingFileAppender.appendRecord self.files self.fileName
              (.event call.footer)).move self.fileName renamed) := by
        rw [RollingFileAppender.perform, Action.execute_rename, if_pos works]
      simp only [rolloverSameFile, closeWriter_eq opened, renames, if_true, done]
      exact setFile_truncate rfl rfl

/-- A rollover that works misses the mark of its new file. -/
theorem rollover_rolls (counted : Drifts sizes self drift) (spared : self.Spares call)
    (rolls : self.Rolls call) :
    Drifts sizes (self.rollover sizes call) (if self.utf16 then 2 else 0) := by
  obtain ⟨ready, ⟨after, purged, done⟩, works⟩ := rolls
  have off : Off sizes after.store self.fileName self.fileLength drift := by
    obtain ⟨content, found, size⟩ := counted.off
    exact ⟨content, (spared after purged).trans found, size⟩
  rw [rollover_eq, if_pos ready, purged]
  dsimp only
  rw [if_pos done]
  have drifts := @rolloverSameFile_drifts sizes { self with files := after.store } call drift
    self.rollingPolicy.suffixLength self.renameTo self.rollingPolicy.archiveName
    counted.opened off
  rwa [if_neg (fun failed => absurd (works.symm.trans failed) Bool.false_ne_true)] at drifts

/-- Each other rollover goes on with the active file. -/
theorem rollover_unrolled (counted : Drifts sizes self drift) (spared : self.Spares call)
    (unrolled : ¬ self.Rolls call) : Drifts sizes (self.rollover sizes call) drift := by
  rw [rollover_eq]
  split
  · rename_i ready
    cases purged : self.purged call with
    | none => exact counted
    | some after =>
        have off : Off sizes after.store self.fileName self.fileLength drift := by
          obtain ⟨content, found, size⟩ := counted.off
          exact ⟨content, (spared after purged).trans found, size⟩
        dsimp only
        split
        · rename_i done
          have failed : call.fails (.renameTo self.fileName self.renameTo) = true := by
            by_contra works
            exact unrolled ⟨ready, ⟨after, purged, done⟩, Bool.eq_false_of_not_eq_true works⟩
          have drifts := @rolloverSameFile_drifts sizes { self with files := after.store } call
            drift self.rollingPolicy.suffixLength self.renameTo self.rollingPolicy.archiveName
            counted.opened off
          rwa [if_pos failed] at drifts
        · exact ⟨counted.opened, off⟩
  · exact counted

end Steps

/-- A request may lead to a rollover. -/
def asked (self : RollingFileAppenderSkeleton) : Request → Option RollingCall
  | .append call _ triggers =>
      if self.checkEntryConditions && self.isTriggeringEvent triggers then some call else none
  | .rollover call => some call

/-- The purges of a request leave the active file alone. -/
def Spared (self : RollingFileAppenderSkeleton) (request : Request) : Prop :=
  ∀ call, self.asked request = some call → self.Spares call

/-- A request begins no new file that has a byte order mark. -/
def Unmarked (self : RollingFileAppenderSkeleton) (request : Request) : Prop :=
  ∀ call, self.asked request = some call → self.utf16 = true → ¬ self.Rolls call

/-- The length is that of the open file, and a size based trigger asks for this length. -/
structure KnowsLength (sizes : Content Bytes → Nat) (appender : RollingFileAppenderSkeleton) :
    Prop where
  opened : appender.writer = some appender.fileName
  existing : appender.files appender.fileName ≠ none
  known : appender.fileLength = length sizes appender.files appender.fileName
  fires : ∀ limit triggers, appender.maxFileSize = some limit →
    (appender.isTriggeringEvent triggers = true ↔
      limit ≤ length sizes appender.files appender.fileName)

section Runs

variable {sizes : Content Bytes → Nat} {self : RollingFileAppenderSkeleton} {drift : Nat}

/-- An appender knows the length of its file when it has counted all bytes. -/
theorem Drifts.knows_iff (drifts : Drifts sizes self drift) :
    KnowsLength sizes self ↔ drift = 0 := by
  obtain ⟨opened, content, found, size⟩ := drifts
  have measured : length sizes self.files self.fileName = self.fileLength + drift := by
    rw [length, found]
    exact size
  constructor
  · intro knows
    have known := knows.known
    omega
  · rintro rfl
    refine ⟨opened, by rw [found]; exact Option.some_ne_none _, measured.symm, ?_⟩
    intro limit triggers limited
    rw [isTriggeringEvent, limited, measured]
    exact decide_eq_true_iff

/-- A request drifts by a byte order mark exactly when it begins a file with one. -/
theorem next_drifts (counted : Drifts sizes self 0) {request : Request}
    (spared : self.Spared request) :
    ∃ drift, Drifts sizes (self.next sizes request) drift ∧ (drift = 0 ↔ self.Unmarked request) := by
  have rolled : ∀ call, self.asked request = some call →
      ∃ drift, Drifts sizes (self.rollover sizes call) drift ∧
        (drift = 0 ↔ self.Unmarked request) := by
    intro call asked
    by_cases rolls : self.Rolls call
    · refine ⟨_, rollover_rolls counted (spared call asked) rolls, ?_⟩
      cases wide : self.utf16 with
      | false => exact iff_of_true rfl fun _ _ marked => by simp [wide] at marked
      | true => exact iff_of_false (by simp) fun unmarked => unmarked call asked wide rolls
    · refine ⟨_, rollover_unrolled counted (spared call asked) rolls, iff_of_true rfl ?_⟩
      intro other same _
      obtain rfl := Option.some.inj (asked.symm.trans same)
      exact rolls
  have unasked : self.asked request = none → self.Unmarked request := by
    intro none call asked
    exact absurd (none.symm.trans asked) (by simp)
  cases request with
  | rollover call => exact rolled call rfl
  | append call text triggers =>
      rw [next, append]
      split
      · rename_i enters
        rw [subAppend]
        split
        · rename_i fires
          obtain ⟨drift, drifts, zero⟩ := rolled call (by rw [asked, enters, fires]; rfl)
          exact ⟨drift, drifts.write text, zero⟩
        · rename_i quiet
          exact ⟨0, counted.write text, iff_of_true rfl (unasked (by simp [asked, quiet]))⟩
      · rename_i refused
        exact ⟨0, counted, iff_of_true rfl (unasked (by simp [asked, refused]))⟩

/-- The file of a measured appender is opened with its mark uncounted. -/
theorem opened_drifts {described start : RollingFileAppenderSkeleton} {call : RollingCall}
    (unopened : described.writer = none)
    (measured : described.fileLength =
      if described.fileAppend then length sizes described.files described.fileName else 0)
    (named : start.fileName ≠ [])
    (opens : (if described.fileName.isEmpty then described
      else described.setFile call described.fileName described.fileAppend) = start) :
    Drifts sizes start (if described.utf16 && (!described.fileAppend ||
      !File.exists' described.files start.fileName) then 2 else 0) := by
  have off : Off sizes (RollingFileAppender.openStream described.files described.fileName
      described.fileAppend) described.fileName described.fileLength 0 := by
    rw [measured]
    cases described.fileAppend with
    | false => exact Off.put sizes described.files described.fileName
    | true =>
        refine ⟨(described.files described.fileName).getD .empty, Function.update_self .., ?_⟩
        rw [if_pos rfl, length]
        cases described.files described.fileName <;> rfl
  have drifts := @setFile_drifts _ _ call _ _ unopened _ off
  split at opens
  · rename_i unnamed
    rw [← opens] at named
    exact absurd (List.isEmpty_iff.mp unnamed) named
  · have kept : start.fileName = described.fileName := by
      rw [← opens, setFile, write]
    rwa [opens, ← kept, Nat.zero_add] at drifts

/-- An activation misses the mark of a file that it begins. -/
theorem activateOptions_drifts {appender start : RollingFileAppenderSkeleton} {call : RollingCall}
    (unopened : appender.writer = none) (named : start.fileName ≠ [])
    (activated : appender.activateOptions sizes call = some start) :
    Drifts sizes start (if appender.utf16 && (!appender.fileAppend ||
      !File.exists' appender.files start.fileName) then 2 else 0) := by
  obtain ⟨policy, _, opens⟩ := Option.map_eq_some_iff.mp activated
  let path := (policy.initializePolicy appender.fileName appender.fileAppend).2.activeFileName
  let described : RollingFileAppenderSkeleton :=
    { appender with
      rollingPolicy := (policy.initializePolicy appender.fileName appender.fileAppend).1
      fileName := path
      fileLength := if appender.fileAppend then length sizes appender.files path else 0 }
  exact @opened_drifts sizes described start call unopened rfl named opens

/-- The appender knows its length throughout a run if and only if no file begins with a mark. -/
theorem knowsLength_iff (sizes : Content Bytes → Nat)
    {appender start : RollingFileAppenderSkeleton} {call : RollingCall}
    (unopened : appender.writer = none) (named : start.fileName ≠ [])
    (activated : appender.activateOptions sizes call = some start) (requests : List Request)
    (spared : (system sizes start).Along Spared start requests) :
    (system sizes start).Throughout (KnowsLength sizes) start requests ↔
      (appender.utf16 = true →
          appender.fileAppend = true ∧ appender.files start.fileName ≠ none) ∧
        (system sizes start).Along Unmarked start requests := by
  have drifts := activateOptions_drifts unopened named activated
  have begins : (appender.utf16 && (!appender.fileAppend ||
      !File.exists' appender.files start.fileName)) = false ↔ (appender.utf16 = true →
        appender.fileAppend = true ∧ appender.files start.fileName ≠ none) := by
    rw [File.exists', ← Option.isSome_iff_ne_none]
    cases appender.utf16 <;> cases appender.fileAppend <;> simp
  rw [← begins]
  cases marked : appender.utf16 && (!appender.fileAppend ||
      !File.exists' appender.files start.fileName) with
  | true =>
      rw [marked, if_pos rfl] at drifts
      refine iff_of_false (fun throughout => ?_) fun unmarked => absurd unmarked.1 (by simp)
      have knows : KnowsLength sizes start := by
        cases requests with
        | nil => exact throughout
        | cons _ _ => exact throughout.1
      exact absurd (drifts.knows_iff.mp knows) (by decide)
  | false =>
      rw [marked, if_neg Bool.false_ne_true] at drifts
      refine Iff.trans ?_ (and_iff_right rfl).symm
      apply System.throughout_iff_along_within _ (fun state => Drifts sizes state 0)
      · exact fun _ counted => counted.knows_iff.mpr rfl
      · intro before request after counted allowed unmarked taken
        obtain rfl := Option.some.inj taken
        obtain ⟨drift, later, zero⟩ := next_drifts counted allowed
        rwa [zero.mpr unmarked] at later
      · intro before request counted allowed marks
        obtain ⟨drift, later, zero⟩ := next_drifts counted allowed
        exact ⟨_, rfl, fun knows => marks (zero.mp (later.knows_iff.mp knows))⟩
      · exact drifts
      · exact spared

end Runs

/-- The names that decide what a purge touches. -/
structure Named (path : LogString) (policy : FixedWindowRollingPolicy)
    (appender : RollingFileAppenderSkeleton) : Prop where
  fileName : appender.fileName = path
  rollingPolicy : appender.rollingPolicy = policy

section Names

variable {sizes : Content Bytes → Nat} {self : RollingFileAppenderSkeleton} {call : RollingCall}
  {path : LogString} {policy : FixedWindowRollingPolicy}

theorem Named.write (names : Named path policy self) (text : Bytes) :
    Named path policy (self.write text) := by
  rw [RollingFileAppenderSkeleton.write]
  split
  · exact names
  · exact ⟨names.fileName, names.rollingPolicy⟩

theorem Named.closeWriter (names : Named path policy self) :
    Named path policy (self.closeWriter call) := by
  rw [RollingFileAppenderSkeleton.closeWriter]
  split
  · exact names
  · exact ⟨(names.write call.footer).fileName, (names.write call.footer).rollingPolicy⟩

theorem Named.setFile (names : Named path policy self) (append : Bool) :
    Named path policy (self.setFile call path append) := by
  rw [RollingFileAppenderSkeleton.setFile]
  apply Named.write
  exact ⟨rfl, names.closeWriter.rollingPolicy⟩

theorem Named.rolloverSameFile (names : Named path policy self)
    {description : RolloverDescription} (kept : description.activeFileName = path) :
    Named path policy (self.rolloverSameFile sizes call description) := by
  have closed := @Named.closeWriter _ call _ _ names
  rw [RollingFileAppenderSkeleton.rolloverSameFile, kept]
  dsimp only
  split
  · split
    · exact ⟨closed.fileName, closed.rollingPolicy⟩
    · apply Named.setFile
      exact ⟨closed.fileName, closed.rollingPolicy⟩
  · apply Named.setFile
    exact ⟨closed.fileName, closed.rollingPolicy⟩

/-- A rollover of this policy keeps the active file and the policy. -/
theorem Named.rollover (names : Named path policy self) :
    Named path policy (self.rollover sizes call) := by
  rw [rollover_eq]
  split
  · cases self.purged call with
    | none => exact names
    | some after =>
        dsimp only
        have moved : Named path policy { self with files := after.store } :=
          ⟨names.fileName, names.rollingPolicy⟩
        split
        · exact moved.rolloverSameFile names.fileName
        · exact moved
  · exact names

theorem Named.next (names : Named path policy self) (request : Request) :
    Named path policy (self.next sizes request) := by
  cases request with
  | rollover call => exact names.rollover
  | append call text triggers =>
      rw [RollingFileAppenderSkeleton.next, append]
      split
      · rw [subAppend]
        split
        · exact names.rollover.write text
        · exact names.write text
      · exact names

/-- No purge touches an active file that has none of the names of the archives. -/
theorem Named.spares (names : Named path policy self)
    (apart : FixedWindowRollingPolicy.Apart policy (Set.Iic policy.maxIndex) path) :
    self.Spares call := by
  obtain ⟨rfl, rfl⟩ := names
  intro after purged
  cases read : FixedWindowRollingPolicy.suffixLengthOf self.rollingPolicy.archiveName with
  | none =>
      exact absurd ((FixedWindowRollingPolicy.purge_unread read).symm.trans purged) (by simp)
  | some suffixLength =>
      obtain rfl : suffixLength = self.rollingPolicy.suffixLength :=
        FixedWindowRollingPolicy.suffixLengthOf_eq read
      exact FixedWindowRollingPolicy.purge_away read
        (fun i above below => apart i below above) purged

theorem along_spared (sizes : Content Bytes → Nat) (self : RollingFileAppenderSkeleton)
    (apart : FixedWindowRollingPolicy.Apart self.rollingPolicy
      (Set.Iic self.rollingPolicy.maxIndex) self.fileName) (requests : List Request) :
    (system sizes self).Along Spared self requests := by
  have named : ∀ state, Named self.fileName self.rollingPolicy state →
      (system sizes self).Along Spared state requests := by
    induction requests with
    | nil => exact fun _ _ => trivial
    | cons request requests ih =>
        intro state names
        refine ⟨fun call _ => names.spares apart, fun after taken => ?_⟩
        obtain rfl := Option.some.inj taken
        exact ih _ (names.next request)
  exact named self ⟨rfl, rfl⟩

end Names

/-- This appender writes wide characters to a new file. -/
def wideAppender : RollingFileAppenderSkeleton where
  fileName := ['l', 'o', 'g']
  fileAppend := false
  utf16 := true
  closed := false
  writer := none
  rollingPolicy := ⟨1, 3, [(.literal ['l', 'o', 'g', '.'], .getDefault), (.integer, .getDefault)],
    false⟩
  maxFileSize := some 1
  fileLength := 0
  files := fun _ => none

/-- The layout has no header and no footer, and no operation fails. -/
def plainCall : RollingCall where
  header := []
  footer := []
  fails := fun _ => false
  started := fun _ _ => rfl

def wideStart : RollingFileAppenderSkeleton :=
  { wideAppender.setFile plainCall ['l', 'o', 'g'] false with
    rollingPolicy := { wideAppender.rollingPolicy with explicitActiveFile := true } }

theorem wideAppender_activated :
    wideAppender.activateOptions (fun _ => 0) plainCall = some wideStart := rfl

/-- The names of the archives are longer than that of the active file. -/
theorem wideStart_apart : FixedWindowRollingPolicy.Apart wideStart.rollingPolicy
    (Set.Iic wideStart.rollingPolicy.maxIndex) wideStart.fileName := by
  intro i below above
  obtain rfl | rfl | rfl : i = 1 ∨ i = 2 ∨ i = 3 := by
    have lower : 1 ≤ i := above
    have upper : i ≤ 3 := below
    omega
  all_goals
    rintro (full | base)
    · exact absurd full (by decide)
    · exact absurd base (by decide)

/-- The run of this witness asks for a rollover and writes a text. -/
theorem knowsLength_iff_wide :
    (system (fun _ => 0) wideStart).Throughout (KnowsLength fun _ => 0) wideStart
        [.rollover plainCall, .append plainCall [65] false] ↔
      (wideAppender.utf16 = true →
          wideAppender.fileAppend = true ∧ wideAppender.files wideStart.fileName ≠ none) ∧
        (system (fun _ => 0) wideStart).Along Unmarked wideStart
          [.rollover plainCall, .append plainCall [65] false] :=
  knowsLength_iff (fun _ => 0) rfl (by decide) wideAppender_activated _
    (along_spared _ wideStart wideStart_apart _)

/-- The mark of two bytes is in the file, and the appender knows of no byte. -/
theorem wideStart_unknown :
    wideAppender.activateOptions (fun _ => 0) plainCall = some wideStart ∧
      wideStart.fileLength = 0 ∧ length (fun _ => 0) wideStart.files wideStart.fileName = 2 ∧
      ¬ (system (fun _ => 0) wideStart).Throughout (KnowsLength fun _ => 0) wideStart [] :=
  ⟨rfl, rfl, rfl, fun knows => absurd knows.known (by decide)⟩

end RollingFileAppenderSkeleton

end CodeCollect.Log4cxx
