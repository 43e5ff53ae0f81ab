import CodeCollect.Log4cxx.TimeBasedRollover

namespace CodeCollect.Log4cxx

open CodeCollect.Library

variable {Event : Type}

/-- A content is in some file, perhaps inside of archives. -/
def Content.StoredIn (content : Content Event) (files : Files (Content Event)) : Prop :=
  ∃ name stored, files name = some stored ∧ content.HeldIn stored

/-- Contents stay stored when each file goes on in another one. -/
theorem Content.StoredIn.move {content : Content Event} {before after : Files (Content Event)}
    (stored : content.StoredIn before)
    (moves : ∀ name found, before name = some found →
      ∃ target moved, after target = some moved ∧ found.HeldIn moved) :
    content.StoredIn after := by
  obtain ⟨name, found, there, held⟩ := stored
  obtain ⟨target, moved, here, further⟩ := moves name found there
  exact ⟨target, moved, here, held.trans further⟩

/-- A write to the end of a file keeps all contents. -/
theorem Content.StoredIn.appendRecord {content : Content Event} {files : Files (Content Event)}
    (stored : content.StoredIn files) (path : LogString) (text : Record Event) :
    content.StoredIn (RollingFileAppender.appendRecord files path text) := by
  apply stored.move
  intro name found there
  by_cases self : name = path
  · subst self
    exact ⟨name, _, RollingFileAppender.appendRecord_self there, .record _ .same⟩
  · exact ⟨name, found, (RollingFileAppender.appendRecord_other self).trans there, .same⟩

/-- A file that is opened for appending keeps all contents. -/
theorem Content.StoredIn.reopened {content : Content Event} {files : Files (Content Event)}
    (stored : content.StoredIn files) (utf16 : Bool) (path : LogString) :
    content.StoredIn (RollingFileAppender.reopened utf16 files path true) := by
  apply stored.move
  intro name found there
  by_cases self : name = path
  · subst self
    obtain ⟨opened, here, keeps⟩ := RollingFileAppender.reopened_self utf16 files name true
    exact ⟨name, _, here, (keeps rfl found there).record _⟩
  · exact ⟨name, found, (RollingFileAppender.reopened_other _ _ self).trans there, .same⟩

namespace TimeBasedRollingPolicy

/-- The archive of the last period is a new file that its child process makes. -/
def Archives (policy : TimeBasedRollingPolicy) (fails : FileOperation → Bool)
    (files : Files (Content Event)) : Prop :=
  0 < policy.suffixLength →
    files policy.lastFileName = none ∧
      fails (.startProcess policy.lastBaseName policy.lastFileName) = false ∧
      fails (.compress policy.lastBaseName policy.lastFileName) = false

/-- A rollover to another name overwrites no file and does not lose its compression. -/
structure Safe (policy : TimeBasedRollingPolicy) (now : Int) (fails : FileOperation → Bool)
    (appender : RollingFileAppender Event) : Prop where
  longer : 0 < policy.suffixLength → policy.lastBaseName ≠ policy.lastFileName
  moves : appender.fileName ≠ policy.lastBaseName →
    fails (.renameTo appender.fileName policy.lastBaseName) = true ∨
      appender.files policy.lastBaseName = none ∧ policy.Archives fails appender.files
  reopens : appender.fileName = policy.lastBaseName →
    policy.activeName now = appender.fileName → policy.Archives fails appender.files
  -- A child that does not start is harmless to an appender that has its new file by then.
  switches : appender.fileName = policy.lastBaseName →
    policy.activeName now ≠ appender.fileName →
      appender.files (policy.activeName now) = none ∧
        (0 < policy.suffixLength →
          policy.activeName now ≠ policy.lastFileName ∧
            appender.files policy.lastFileName = none ∧
            (fails (.startProcess policy.lastBaseName policy.lastFileName) = false →
              fails (.compress policy.lastBaseName policy.lastFileName) = false))

end TimeBasedRollingPolicy

namespace RollingFileAppender

variable {self : RollingFileAppender Event} {policy : TimeBasedRollingPolicy}
  {fails : FileOperation → Bool} {now : Int}

/-- The appender is open under this policy and has lost no content. -/
structure Rolled (before : RollingFileAppender Event) (policy : TimeBasedRollingPolicy)
    (result : RollingFileAppender Event) : Prop where
  opened : result.Open
  timed : result.rollingPolicy = .timeBased policy
  stored : ∀ content : Content Event, content.StoredIn before.files →
    content.StoredIn result.files

/-- The names of the last period make an archive. -/
theorem archiveNames_last
    (suffix : policy.suffixLength = 0 ∨ policy.suffixLength = 3 ∨ policy.suffixLength = 4)
    (longer : 0 < policy.suffixLength → policy.lastBaseName ≠ policy.lastFileName) :
    ArchiveNames policy.suffixLength policy.lastBaseName policy.lastFileName := by
  refine ⟨suffix, fun plain => ?_, longer⟩
  rw [TimeBasedRollingPolicy.lastBaseName, plain, baseName_zero]

/-- An archive keeps the active file, and the other files stay as they are. -/
theorem stored_archived {files : Files (Content Event)} {active : Content Event}
    {suffixLength : Nat} {archive : LogString} (found : self.files self.fileName = some active)
    (archived : files archive = some ((active.record .footer).packed suffixLength))
    (others : ∀ name stored, name ≠ self.fileName → self.files name = some stored →
      files name = some stored)
    {content : Content Event} (stored : content.StoredIn self.files) :
    content.StoredIn files := by
  apply stored.move
  intro name here there
  by_cases own : name = self.fileName
  · rw [own, found] at there
    obtain rfl := Option.some.inj there
    exact ⟨archive, _, archived,
      (Content.HeldIn.same.record .footer).trans (Content.heldIn_packed _ suffixLength)⟩
  · exact ⟨name, here, others name here own there, .same⟩

/-- A safe rollover of a file that does not follow the pattern moves it or goes on with it. -/
theorem rollover_moves_keeps (opened : self.Open)
    (timed : self.rollingPolicy = .timeBased policy)
    (changed : policy.formatFileName now ≠ policy.lastFileName)
    (suffix : policy.suffixLength = 0 ∨ policy.suffixLength = 3 ∨ policy.suffixLength = 4)
    (safe : policy.Safe now fails self) (own : self.fileName ≠ policy.lastBaseName) :
    self.Rolled (policy.rolledTo now) (self.rollover now fails) := by
  obtain ⟨active, found⟩ := Option.ne_none_iff_exists'.mp opened.exists'
  have names := archiveNames_last suffix safe.longer
  cases renamed : fails (.renameTo self.fileName policy.lastBaseName) with
  | true =>
      rw [rollover_moves timed now fails changed own]
      rw [rolloverSameFile_unrenamed
        { self with rollingPolicy := .timeBased (policy.rolledTo now) } fails
        (by exact opened.writer) renamed]
      refine ⟨open_reopen (by exact opened.notClosed) _ _, rfl, fun content stored => ?_⟩
      exact (stored.appendRecord self.fileName .footer).reopened self.utf16 self.fileName
  | false =>
      obtain ⟨free, archives⟩ := (safe.moves own).resolve_left (by simp [renamed])
      obtain ⟨files, result, archive, others⟩ := rollover_moves_archives fails opened timed
        changed own names found renamed fun suffixed => (archives suffixed).2
      have archiveFree : self.files policy.lastFileName = none := by
        rcases Nat.eq_zero_or_pos policy.suffixLength with plain | suffixed
        · rw [← names.plain plain]
          exact free
        · exact (archives suffixed).1
      have away : policy.lastFileName ≠ self.fileName :=
        fun same => opened.exists' (same ▸ archiveFree)
      rw [result]
      refine ⟨open_reopen (by exact opened.notClosed) _ _, rfl, fun content => ?_⟩
      apply stored_archived found ((reopened_other _ _ away).trans archive)
      intro name stored other there
      refine (reopened_other _ _ other).trans ?_
      rw [others name other, there]
      · rintro rfl
        exact Option.some_ne_none _ (there.symm.trans free)
      · rintro rfl
        exact Option.some_ne_none _ (there.symm.trans archiveFree)

/-- A left file whose archive is made is kept there. -/
theorem rollover_archived_keeps (opened : self.Open)
    (timed : self.rollingPolicy = .timeBased policy)
    (changed : policy.formatFileName now ≠ policy.lastFileName)
    (names : ArchiveNames policy.suffixLength policy.lastBaseName policy.lastFileName)
    (follows : self.fileName = policy.lastBaseName)
    (next : policy.activeName now ≠ policy.lastFileName)
    (new : policy.activeName now ≠ self.fileName → self.files (policy.activeName now) = none)
    (archives : policy.Archives fails self.files) :
    self.Rolled (policy.rolledTo now) (self.rollover now fails) := by
  obtain ⟨active, found⟩ := Option.ne_none_iff_exists'.mp opened.exists'
  obtain ⟨reopened, _, rolled, _, archive, others⟩ := rollover_leaves_archives fails opened timed
    changed follows names next found fun suffixed => (archives suffixed).2
  refine ⟨reopened, rolled, fun content => ?_⟩
  apply stored_archived found archive
  intro name stored away there
  rw [others name away, there]
  · rintro rfl
    rcases Nat.eq_zero_or_pos policy.suffixLength with plain | suffixed
    · exact away (follows.trans (names.plain plain)).symm
    · exact Option.some_ne_none _ (there.symm.trans (archives suffixed).1)
  · rintro rfl
    exact Option.some_ne_none _ (there.symm.trans (new away))

/-- A left file whose child does not start stays where it is. -/
theorem rollover_unstarted_keeps (opened : self.Open)
    (timed : self.rollingPolicy = .timeBased policy)
    (changed : policy.formatFileName now ≠ policy.lastFileName)
    (names : ArchiveNames policy.suffixLength policy.lastBaseName policy.lastFileName)
    (follows : self.fileName = policy.lastBaseName)
    (different : policy.activeName now ≠ self.fileName)
    (next : policy.activeName now ≠ policy.lastFileName)
    (new : self.files (policy.activeName now) = none)
    (free : self.files policy.lastFileName = none)
    (suffixed : 0 < policy.suffixLength)
    (failed : fails (.startProcess policy.lastBaseName policy.lastFileName) = true) :
    self.Rolled (policy.rolledTo now) (self.rollover now fails) := by
  obtain ⟨active, found⟩ := Option.ne_none_iff_exists'.mp opened.exists'
  obtain ⟨action, chosen⟩ := names.compressAction suffixed
  have unopened : ∀ name, name ≠ policy.activeName now →
      openStream self.files (policy.activeName now) false name = self.files name :=
    fun name away => Function.update_of_ne away ..
  have footed : appendRecord (openStream self.files (policy.activeName now) false) self.fileName
      .footer policy.lastBaseName = some (active.record .footer) := by
    rw [← follows]
    exact appendRecord_self ((unopened _ different.symm).trans found)
  obtain ⟨_, rfl, cases⟩ := ({ self with rollingPolicy := .timeBased (policy.rolledTo now) } :
    RollingFileAppender Event).rolloverOtherFile_cases fails
      ⟨policy.activeName now, false, none,
        compressAction policy.suffixLength policy.lastBaseName policy.lastFileName⟩
      opened.writer rfl
  dsimp only at cases
  rw [chosen, perform] at cases
  have source : appendRecord (openStream self.files (policy.activeName now) false) self.fileName
      .footer policy.lastBaseName ≠ none := by
    rw [footed]
    exact Option.some_ne_none _
  have threw := Action.execute_result fails chosen source
  rw [failed, if_pos rfl] at threw
  obtain ⟨_, result⟩ := cases.resolve_right fun returned => returned.1 threw
  have kept := (Action.execute_kept chosen (names.compressed suffixed) failed).trans footed
  have others : ∀ name, name ≠ self.fileName → name ≠ policy.lastFileName →
      (Action.execute fails (appendRecord (openStream self.files (policy.activeName now) false)
        self.fileName .footer) action).2 name =
          openStream self.files (policy.activeName now) false name := by
    intro name away awayFromLast
    rw [Action.execute_other chosen (follows ▸ away) awayFromLast, appendRecord_other away]
  rw [rollover_leaves timed now fails changed follows]
  dsimp only
  rw [if_neg different, chosen, result]
  refine ⟨⟨opened.notClosed, rfl, ?_⟩, rfl, fun content stored => ?_⟩
  · dsimp only
    rw [others _ different next]
    rw [openStream, Store.put_apply, if_pos rfl]
    exact Option.some_ne_none _
  · apply stored.move
    intro name stored there
    by_cases own : name = self.fileName
    · rw [own, found] at there
      obtain rfl := Option.some.inj there
      exact ⟨_, _, kept, .record _ .same⟩
    · refine ⟨name, stored, ?_, .same⟩
      dsimp only
      rw [others name own, unopened name, there]
      · rintro rfl
        exact Option.some_ne_none _ (there.symm.trans new)
      · rintro rfl
        exact Option.some_ne_none _ (there.symm.trans free)

/-- A safe rollover of a time based policy keeps the appender open and all contents. -/
theorem keeps_rollover (opened : self.Open) (timed : self.rollingPolicy = .timeBased policy)
    (suffix : policy.suffixLength = 0 ∨ policy.suffixLength = 3 ∨ policy.suffixLength = 4)
    (safe : policy.formatFileName now ≠ policy.lastFileName → policy.Safe now fails self) :
    self.Rolled (policy.rolledTo now) (self.rollover now fails) := by
  by_cases changed : policy.formatFileName now = policy.lastFileName
  · rw [rollover_unchanged timed now fails changed]
    exact ⟨⟨opened.notClosed, opened.writer, opened.exists'⟩, rfl, fun _ stored => stored⟩
  have safe := safe changed
  by_cases follows : self.fileName = policy.lastBaseName
  · have names := archiveNames_last suffix safe.longer
    by_cases same : policy.activeName now = self.fileName
    · have next : policy.activeName now ≠ policy.lastFileName := by
        rcases Nat.eq_zero_or_pos policy.suffixLength with plain | suffixed
        · rw [TimeBasedRollingPolicy.activeName, plain, baseName_zero]
          exact changed
        · rw [same, follows]
          exact names.compressed suffixed
      exact rollover_archived_keeps opened timed changed names follows next
        (fun different => absurd same different) (safe.reopens follows same)
    · obtain ⟨new, suffixed⟩ := safe.switches follows same
      rcases Nat.eq_zero_or_pos policy.suffixLength with plain | positive
      · refine rollover_archived_keeps opened timed changed names follows ?_ (fun _ => new)
          fun suffixed => absurd plain (Nat.ne_of_gt suffixed)
        rw [← names.plain plain, ← follows]
        exact same
      · obtain ⟨next, free, compresses⟩ := suffixed positive
        cases started : fails (.startProcess policy.lastBaseName policy.lastFileName) with
        | true =>
            exact rollover_unstarted_keeps opened timed changed names follows same next new free
              positive started
        | false =>
            exact rollover_archived_keeps opened timed changed names follows next
              (fun _ => new) fun _ => ⟨free, started, compresses started⟩
  · exact rollover_moves_keeps opened timed changed suffix safe follows

end RollingFileAppender

end CodeCollect.Log4cxx
