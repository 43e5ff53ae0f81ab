import CodeCollect.Library.Machine
import CodeCollect.Log4cxx.FixedWindowPurgeFrame
import CodeCollect.Log4cxx.RollingFileAppenderSteps

namespace CodeCollect.Log4cxx

open CodeCollect.Library

/-- The loop of `purge` deletes this content at the highest index. -/
def FixedWindowRollingPolicy.dropped {Content : Type} (self : FixedWindowRollingPolicy)
    (fails : FileOperation → Bool) (files : Files Content) : Option Content := do
  let suffixLength ← suffixLengthOf (self.fileNamePattern.formatFileName self.purgeStart)
  guard (0 ≤ self.maxIndex ∧ self.purgeStart ≤ self.maxIndex)
  let left := collectRenames self.fileNamePattern fails suffixLength
    (self.maxIndex - self.purgeStart).toNat self.purgeStart files
  let top := standing self.fileNamePattern suffixLength files self.maxIndex
  if (left.1 top).isNone then files top else none

/-- An observer sees what the active file holds at each rollover and what a purge drops. -/
inductive RolloverObservation (Event : Type) where
  | rolled (content : Content Event)
  | dropped (content : Content Event)

namespace RollingFileAppender

variable {Event : Type}

def dropped (self : RollingFileAppender Event) (fails : FileOperation → Bool) :
    Option (Content Event) :=
  match self.rollingPolicy with
  | .fixedWindow policy => policy.dropped fails self.files
  | .timeBased _ => none

def observe (self : RollingFileAppender Event) (call : AppendCall Event) :
    List (RolloverObservation Event) :=
  if self.checkEntryConditions && self.isTriggeringEvent call then
    ((self.files self.fileName).map fun content =>
        RolloverObservation.rolled (content.record .footer)).toList ++
      ((self.dropped call.fails).map RolloverObservation.dropped).toList
  else []

/-- Each action of the machine is one call of `append`. -/
def machine (start : RollingFileAppender Event) :
    Machine (RollingFileAppender Event) (AppendCall Event) (RolloverObservation Event) where
  initial := start
  step appender call := some (appender.append call, appender.observe call)

theorem run_single (start : RollingFileAppender Event) (call : AppendCall Event) :
    (machine start).run [call] = some (start.append call, start.observe call) := rfl

/-- The rolled contents are listed from the latest rollover on. -/
def rolled (trace : List (RolloverObservation Event)) : List (Content Event) :=
  (trace.filterMap fun
    | .rolled content => some content
    | .dropped _ => none).reverse

/-- The appender writes to its active file, which exists. -/
structure Open (appender : RollingFileAppender Event) : Prop where
  notClosed : appender.closed = false
  writer : appender.writer = some appender.fileName
  exists' : appender.files appender.fileName ≠ none

@[simp] theorem rolled_nil : rolled ([] : List (RolloverObservation Event)) = [] := rfl

theorem rolled_append (trace seen : List (RolloverObservation Event)) :
    rolled (trace ++ seen) = rolled seen ++ rolled trace := by
  simp [rolled]

variable {self : RollingFileAppender Event}

theorem Open.checkEntryConditions (opened : self.Open) : self.checkEntryConditions = true := by
  rw [RollingFileAppender.checkEntryConditions, opened.notClosed, opened.writer]
  rfl

/-- An event that triggers nothing goes to the end of the active file. -/
theorem Open.append_idle (opened : self.Open) (call : AppendCall Event)
    (idle : self.isTriggeringEvent call = false) :
    self.append call =
        { self with files := appendRecord self.files self.fileName (.event call.event) } ∧
      self.observe call = [] := by
  rw [append, if_pos opened.checkEntryConditions, subAppend, observe, idle, Bool.and_false]
  exact ⟨write_eq self opened.writer _, rfl⟩

/-- An event that triggers a rollover is written after it. -/
theorem Open.append_rolls (opened : self.Open) (call : AppendCall Event)
    (triggers : self.isTriggeringEvent call = true) {content : Content Event}
    (found : self.files self.fileName = some content) :
    self.append call = (self.rollover call.now call.fails).write (.event call.event) ∧
      self.observe call = .rolled (content.record .footer) ::
        ((self.dropped call.fails).map .dropped).toList := by
  rw [append, if_pos opened.checkEntryConditions, subAppend, observe, triggers, Bool.and_true,
    if_pos opened.checkEntryConditions, found]
  exact ⟨rfl, rfl⟩

theorem Open.write (opened : self.Open) (text : Record Event) : (self.write text).Open := by
  obtain ⟨content, found⟩ := Option.ne_none_iff_exists'.mp opened.exists'
  rw [write_eq self opened.writer]
  refine ⟨opened.notClosed, opened.writer, ?_⟩
  show appendRecord self.files self.fileName text self.fileName ≠ none
  rw [appendRecord_self found]
  exact Option.some_ne_none _

theorem open_reopen (notClosed : self.closed = false) (files : Files (Content Event))
    (append : Bool) : (self.reopen files append).Open := by
  refine ⟨notClosed, rfl, ?_⟩
  obtain ⟨content, found, _⟩ :=
    reopened_self self.utf16 files self.fileName append
  show reopened self.utf16 files self.fileName append self.fileName ≠ none
  rw [found]
  exact Option.some_ne_none _

/-- An activation takes the file of the first description and opens it, if it has a name. -/
theorem activateOptions_spec {start : RollingFileAppender Event} (fresh : self.writer = none)
    (notClosed : self.closed = false) {activated initialized : Int}
    (result : self.activateOptions activated initialized = some start) :
    ∃ accepted, self.rollingPolicy.activateOptions activated = some accepted ∧
      start.rollingPolicy =
        (accepted.initializePolicy initialized self.fileName self.fileAppend).1 ∧
      start.fileName =
        (accepted.initializePolicy initialized self.fileName self.fileAppend).2.activeFileName ∧
      start.triggeringPolicy = self.triggeringPolicy ∧
      (start.fileName ≠ [] → start.Open ∧
        ∀ name, name ≠ start.fileName → start.files name = self.files name) := by
  rw [activateOptions, Option.map_eq_some_iff] at result
  obtain ⟨accepted, checked, rfl⟩ := result
  refine ⟨accepted, checked, ?_⟩
  obtain ⟨policy, description⟩ :=
    accepted.initializePolicy initialized self.fileName self.fileAppend
  dsimp only
  split
  · rename_i unnamed
    exact ⟨rfl, rfl, rfl, fun named => absurd (List.isEmpty_iff.mp unnamed) named⟩
  · rw [setFile_eq _ (by exact fresh)]
    exact ⟨rfl, rfl, rfl, fun _ =>
      ⟨open_reopen (by exact notClosed) _ _, fun name away => reopened_other _ _ away⟩⟩

/-- The policy decides which branch of `rollover` is taken. -/
theorem rollover_fixedWindow {policy : FixedWindowRollingPolicy}
    (fixed : self.rollingPolicy = .fixedWindow policy) (now : Int)
    (fails : FileOperation → Bool) :
    self.rollover now fails =
      match policy.rollover fails self.files self.fileName with
      | none => self
      | some (none, purged) => { self with files := purged }
      | some (some description, purged) =>
          if description.activeFileName = self.fileName then
            ({ self with files := purged } : RollingFileAppender Event).rolloverSameFile fails
              description
          else
            ({ self with files := purged } : RollingFileAppender Event).rolloverOtherFile fails
              description := by
  cases self
  subst fixed
  rw [rollover, RollingPolicy.rollover]
  dsimp only
  cases policy.rollover fails _ _ with
  | none => rfl
  | some result =>
      obtain ⟨description, purged⟩ := result
      cases description with
      | none => rfl
      | some description => rfl

/-- An exception in `purge` leaves the appender as it is. -/
theorem rollover_threw {policy : FixedWindowRollingPolicy}
    (fixed : self.rollingPolicy = .fixedWindow policy) (now : Int)
    (fails : FileOperation → Bool)
    (threw : FixedWindowRollingPolicy.purge policy.fileNamePattern fails policy.purgeStart
      policy.maxIndex self.files = none) : self.rollover now fails = self := by
  rw [rollover_fixedWindow fixed, FixedWindowRollingPolicy.rollover, threw]
  by_cases nonnegative : 0 ≤ policy.maxIndex
  · rw [if_pos nonnegative]
    rfl
  · rw [if_neg nonnegative]

/-- Below zero a maximal index keeps the policy from rolling. -/
theorem rollover_negative {policy : FixedWindowRollingPolicy}
    (fixed : self.rollingPolicy = .fixedWindow policy) (now : Int)
    (fails : FileOperation → Bool) (negative : ¬ 0 ≤ policy.maxIndex) :
    self.rollover now fails = self := by
  rw [rollover_fixedWindow fixed, FixedWindowRollingPolicy.rollover, if_neg negative]

/-- A purge that gives up leaves the active file open. -/
theorem rollover_refused {policy : FixedWindowRollingPolicy}
    (fixed : self.rollingPolicy = .fixedWindow policy) (now : Int)
    (fails : FileOperation → Bool) (nonnegative : 0 ≤ policy.maxIndex)
    {result : Moved LogString (Content Event)}
    (purged : FixedWindowRollingPolicy.purge policy.fileNamePattern fails policy.purgeStart
      policy.maxIndex self.files = some result) (refused : result.done = false) :
    self.rollover now fails = { self with files := result.store } := by
  rw [rollover_fixedWindow fixed, FixedWindowRollingPolicy.rollover, if_pos nonnegative, purged]
  dsimp only [Option.map_some]
  rw [refused, if_neg Bool.false_ne_true]

/-- A rollover behind a successful purge archives the active file at the lowest index. -/
theorem rollover_purged {policy : FixedWindowRollingPolicy}
    (fixed : self.rollingPolicy = .fixedWindow policy) (now : Int)
    (fails : FileOperation → Bool) (nonnegative : 0 ≤ policy.maxIndex) {result : Moved LogString (Content Event)}
    (purged : FixedWindowRollingPolicy.purge policy.fileNamePattern fails policy.purgeStart
      policy.maxIndex self.files = some result) (done : result.done = true) :
    self.rollover now fails =
      ({ self with files := result.store } : RollingFileAppender Event).rolloverSameFile fails
        ⟨self.fileName, false, some (.rename ⟨self.fileName,
            baseName policy.suffixLength policy.archiveName⟩),
          compressAction policy.suffixLength (baseName policy.suffixLength policy.archiveName)
            policy.archiveName⟩ := by
  rw [rollover_fixedWindow fixed, FixedWindowRollingPolicy.rollover, if_pos nonnegative, purged]
  dsimp only [Option.map_some]
  rw [if_pos done]
  dsimp only
  rw [if_pos rfl]

end RollingFileAppender

end CodeCollect.Log4cxx
