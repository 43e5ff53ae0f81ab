import CodeCollect.Log4cxx.RollingFileAppenderRun

namespace CodeCollect.Log4cxx

open CodeCollect.Library

namespace TimeBasedRollingPolicy

/-- This is the name of the active file that follows the pattern at a point of time. -/
def activeName (self : TimeBasedRollingPolicy) (n : Int) : LogString :=
  baseName self.suffixLength (self.formatFileName n)

def lastBaseName (self : TimeBasedRollingPolicy) : LogString :=
  baseName self.suffixLength self.lastFileName

/-- The policy after a call of `rollover` that has found another name. -/
def rolledTo (self : TimeBasedRollingPolicy) (n : Int) : TimeBasedRollingPolicy :=
  { self with nextCheck := nextCheckAfter n, lastFileName := self.formatFileName n }

end TimeBasedRollingPolicy

namespace RollingFileAppender

variable {Event : Type} {self : RollingFileAppender Event} {policy : TimeBasedRollingPolicy}

/-- Without a new name only the next check changes. -/
theorem rollover_unchanged (timed : self.rollingPolicy = .timeBased policy) (now : Int)
    (fails : FileOperation → Bool)
    (same : policy.formatFileName now = policy.lastFileName) :
    self.rollover now fails = { self with rollingPolicy := .timeBased (policy.rolledTo now) } := by
  cases self
  subst timed
  rw [rollover, RollingPolicy.rollover, TimeBasedRollingPolicy.rollover, if_pos same,
    TimeBasedRollingPolicy.rolledTo, same]

/-- An active file that does not follow the pattern is moved and opened anew. -/
theorem rollover_moves (timed : self.rollingPolicy = .timeBased policy) (now : Int)
    (fails : FileOperation → Bool)
    (changed : policy.formatFileName now ≠ policy.lastFileName)
    (own : self.fileName ≠ policy.lastBaseName) :
    self.rollover now fails =
      ({ self with rollingPolicy := .timeBased (policy.rolledTo now) } :
        RollingFileAppender Event).rolloverSameFile fails
          ⟨self.fileName, false, some (.rename ⟨self.fileName, policy.lastBaseName⟩),
            compressAction policy.suffixLength policy.lastBaseName policy.lastFileName⟩ := by
  cases self
  subst timed
  rw [rollover, RollingPolicy.rollover, TimeBasedRollingPolicy.rollover, if_neg changed]
  simp only [TimeBasedRollingPolicy.lastBaseName] at own
  simp [own, TimeBasedRollingPolicy.lastBaseName, TimeBasedRollingPolicy.rolledTo]

/-- An active file that follows the pattern is left behind under its name. -/
theorem rollover_leaves (timed : self.rollingPolicy = .timeBased policy) (now : Int)
    (fails : FileOperation → Bool)
    (changed : policy.formatFileName now ≠ policy.lastFileName)
    (follows : self.fileName = policy.lastBaseName) :
    self.rollover now fails =
      let rolling : RollingFileAppender Event :=
        { self with rollingPolicy := .timeBased (policy.rolledTo now) }
      let description : RolloverDescription := ⟨policy.activeName now, false, none,
        compressAction policy.suffixLength policy.lastBaseName policy.lastFileName⟩
      if policy.activeName now = self.fileName then rolling.rolloverSameFile fails description
      else rolling.rolloverOtherFile fails description := by
  cases self
  subst timed
  rw [rollover, RollingPolicy.rollover, TimeBasedRollingPolicy.rollover, if_neg changed]
  simp only [TimeBasedRollingPolicy.lastBaseName] at follows
  simp [follows, TimeBasedRollingPolicy.lastBaseName, TimeBasedRollingPolicy.rolledTo,
    TimeBasedRollingPolicy.activeName]

section Outcome

variable {fails : FileOperation → Bool} {content : Content Event} {now : Int}

/-- A moved file is archived under the last name. -/
theorem rollover_moves_archives (fails : FileOperation → Bool) (opened : self.Open)
    (timed : self.rollingPolicy = .timeBased policy)
    (changed : policy.formatFileName now ≠ policy.lastFileName)
    (own : self.fileName ≠ policy.lastBaseName)
    (names : ArchiveNames policy.suffixLength policy.lastBaseName policy.lastFileName)
    (found : self.files self.fileName = some content)
    (renamed : fails (.renameTo self.fileName policy.lastBaseName) = false)
    (works : 0 < policy.suffixLength →
      fails (.startProcess policy.lastBaseName policy.lastFileName) = false ∧
        fails (.compress policy.lastBaseName policy.lastFileName) = false) :
    ∃ files, self.rollover now fails =
        ({ self with rollingPolicy := .timeBased (policy.rolledTo now) } :
          RollingFileAppender Event).reopen files false ∧
      files policy.lastFileName =
        some ((content.record .footer).packed policy.suffixLength) ∧
      ∀ name, name ≠ self.fileName → name ≠ policy.lastBaseName → name ≠ policy.lastFileName →
        files name = self.files name := by
  obtain ⟨files, result, archive, _, others⟩ :=
    ({ self with rollingPolicy := .timeBased (policy.rolledTo now) } :
      RollingFileAppender Event).rolloverSameFile_archives fails opened.writer found names
        renamed works
  exact ⟨files, (rollover_moves timed now fails changed own).trans result, archive, others⟩

/-- A left file is archived under the last name, and the next file is open. -/
theorem rollover_leaves_archives (fails : FileOperation → Bool) (opened : self.Open)
    (timed : self.rollingPolicy = .timeBased policy)
    (changed : policy.formatFileName now ≠ policy.lastFileName)
    (follows : self.fileName = policy.lastBaseName)
    (names : ArchiveNames policy.suffixLength policy.lastBaseName policy.lastFileName)
    (next : policy.activeName now ≠ policy.lastFileName)
    (found : self.files self.fileName = some content)
    (works : 0 < policy.suffixLength →
      fails (.startProcess policy.lastBaseName policy.lastFileName) = false ∧
        fails (.compress policy.lastBaseName policy.lastFileName) = false) :
    (self.rollover now fails).Open ∧
      (self.rollover now fails).fileName = policy.activeName now ∧
      (self.rollover now fails).rollingPolicy = .timeBased (policy.rolledTo now) ∧
      (self.rollover now fails).triggeringPolicy = self.triggeringPolicy ∧
      (self.rollover now fails).files policy.lastFileName =
        some ((content.record .footer).packed policy.suffixLength) ∧
      ∀ name, name ≠ self.fileName → name ≠ policy.lastFileName →
        name ≠ policy.activeName now →
          (self.rollover now fails).files name = self.files name := by
  rw [rollover_leaves timed now fails changed follows]
  dsimp only
  split
  · rename_i same
    have read : appendRecord self.files self.fileName .footer policy.lastBaseName =
        some (content.record .footer) := by
      rw [← follows]
      exact appendRecord_self found
    obtain ⟨returned, archive, _, others⟩ := perform_compress fails names read works
    obtain ⟨_, rfl, cases⟩ := ({ self with rollingPolicy := .timeBased (policy.rolledTo now) } :
      RollingFileAppender Event).rolloverSameFile_cases fails
        ⟨policy.activeName now, false, none,
          compressAction policy.suffixLength policy.lastBaseName policy.lastFileName⟩
        opened.writer same
    rw [perform_none] at cases
    rcases cases with ⟨failed, _⟩ | ⟨_, rfl, _, ⟨threw, _⟩ | ⟨_, result⟩⟩
    · exact absurd rfl failed
    · exact absurd threw returned
    · rw [result]
      refine ⟨open_reopen (by exact opened.notClosed) _ _, same.symm, rfl, rfl, ?_, ?_⟩
      · exact (reopened_other _ _ (same ▸ next.symm)).trans archive
      · intro name away awayFromLast _
        refine (reopened_other _ _ away).trans ?_
        rw [others name (follows ▸ away) awayFromLast]
        exact appendRecord_other away
  · rename_i different
    have unopened : ∀ name, name ≠ policy.activeName now →
        openStream self.files (policy.activeName now) false name = self.files name :=
      fun name away => Function.update_of_ne away ..
    have read : appendRecord (openStream self.files (policy.activeName now) false) self.fileName
        .footer policy.lastBaseName = some (content.record .footer) := by
      rw [← follows]
      exact appendRecord_self ((unopened _ (Ne.symm different)).trans found)
    obtain ⟨returned, archive, _, others⟩ := perform_compress fails names read works
    obtain ⟨_, rfl, cases⟩ := ({ self with rollingPolicy := .timeBased (policy.rolledTo now) } :
      RollingFileAppender Event).rolloverOtherFile_cases fails
        ⟨policy.activeName now, false, none,
          compressAction policy.suffixLength policy.lastBaseName policy.lastFileName⟩
        opened.writer rfl
    rcases cases with ⟨threw, _⟩ | ⟨_, result⟩
    · exact absurd threw returned
    · rw [result]
      have there := others (policy.activeName now) (follows ▸ different) next
      rw [appendRecord_other different] at there
      refine ⟨⟨opened.notClosed, rfl, ?_⟩, rfl, rfl, rfl, ?_, ?_⟩
      · dsimp only
        rw [appendRecord_self (there.trans (Function.update_self ..))]
        exact Option.some_ne_none _
      · exact (appendRecord_other next.symm).trans archive
      · intro name away awayFromLast awayFromNext
        refine (appendRecord_other awayFromNext).trans ?_
        rw [others name (follows ▸ away) awayFromLast, appendRecord_other away]
        exact unopened name awayFromNext

end Outcome

end RollingFileAppender

end CodeCollect.Log4cxx
