import CodeCollect.Log4cxx.FixedWindowRollingPolicy

namespace CodeCollect.Log4cxx

open CodeCollect.Library

/-- These are the texts that an appender writes to its file. -/
inductive Record (Event : Type) where
  | byteOrderMark
  | header
  | event (event : Event)
  | footer
deriving DecidableEq, Repr

/-- A failed child process leaves a damaged file behind. -/
inductive Content (Event : Type) where
  | empty
  | record (content : Content Event) (last : Record Event)
  | gzip (content : Content Event)
  | zip (content : Content Event)
  | damaged
deriving DecidableEq, Repr

/-- The actions of a rollover name all files that they touch. -/
inductive Action where
  | rename (action : FileRenameAction)
  | gzCompress (source destination : LogString) (deleteSource : Bool)
  | zipCompress (source destination : LogString) (deleteSource : Bool)
deriving DecidableEq

/-- The two actions are absent when there is nothing to do. -/
structure RolloverDescription where
  activeFileName : LogString
  append : Bool
  synchronous : Option Action
  asynchronous : Option Action
deriving DecidableEq

variable {Event : Type}

namespace Action

/-- The child `gzip` writes to its open output, which is damaged when the child fails. -/
def runGzip (fails : FileOperation → Bool) (files : Files (Content Event))
    (source destination : LogString) : Files (Content Event) :=
  match files source with
  | some content =>
      if fails (.compress source destination) then files.put destination .damaged
      else files.put destination (.gzip content)
  | none => files.put destination .damaged

/-- The child `zip` replaces the archive as a whole when it has finished. -/
def runZip (fails : FileOperation → Bool) (files : Files (Content Event))
    (source destination : LogString) : Files (Content Event) :=
  match files source with
  | some content =>
      if fails (.compress source destination) then files else files.put destination (.zip content)
  | none => files

/-- This is the end of both compressions, which nobody asks for the exit code of the child. -/
def dropSource (fails : FileOperation → Bool) (files : Files (Content Event))
    (source : LogString) (deleteSource : Bool) : Files (Content Event) :=
  if deleteSource && !fails (.deleteSource source) then files.remove source else files

/-- The result is missing when an exception leaves `execute`. -/
def execute (fails : FileOperation → Bool) (files : Files (Content Event)) :
    Action → Option Bool × Files (Content Event)
  | .rename action =>
      if FileRenameAction.fails fails action || !File.exists' files action.source then
        (some false, files)
      else (some true, files.move action.source action.target)
  | .gzCompress source destination deleteSource =>
      if File.exists' files source then
        -- The destination is truncated before the child starts.
        let opened := files.put destination .empty
        if fails (.startProcess source destination) then (none, opened)
        else (some true, dropSource fails (runGzip fails opened source destination) source
          deleteSource)
      else (some false, files)
  | .zipCompress source destination deleteSource =>
      if File.exists' files source then
        let cleared :=
          if File.exists' files destination then (File.deleteFile fails files destination).2
          else files
        if fails (.startProcess source destination) then (none, cleared)
        else (some true, dropSource fails (runZip fails cleared source destination) source
          deleteSource)
      else (some false, files)

end Action

/-- A compressed name is as much longer than its base as this suffix. -/
def compressedLength (name : LogString) : Nat :=
  if StringHelper.endsWith name ['.', 'g', 'z'] then 3
  else if StringHelper.endsWith name ['.', 'z', 'i', 'p'] then 4
  else 0

/-- Both policies choose their second action by the length of the suffix. -/
def compressAction (suffixLength : Nat) (source destination : LogString) : Option Action :=
  if suffixLength = 3 then some (.gzCompress source destination true)
  else if suffixLength = 4 then some (.zipCompress source destination true)
  else none

/-- This is the content of an archive with such a suffix. -/
def Content.packed (suffixLength : Nat) (content : Content Event) : Content Event :=
  if suffixLength = 3 then .gzip content
  else if suffixLength = 4 then .zip content
  else content

namespace Action

variable {fails : FileOperation → Bool} {files : Files (Content Event)}
  {source destination : LogString} {suffixLength : Nat} {action : Action}

theorem put_other {name other : LogString} (content : Content Event) (away : other ≠ name) :
    files.put name content other = files other :=
  Function.update_of_ne away ..

/-- A rename works exactly when the operation does and the source exists. -/
theorem execute_rename (rename : FileRenameAction) :
    execute fails files (.rename rename) =
      if FileRenameAction.fails fails rename = false ∧ files rename.source ≠ none then
        (some true, files.move rename.source rename.target)
      else (some false, files) := by
  rw [execute]
  cases failed : FileRenameAction.fails fails rename <;>
    cases found : files rename.source <;> simp [File.exists', found]

theorem dropSource_other (deleteSource : Bool) {name : LogString} (away : name ≠ source) :
    dropSource fails files source deleteSource name = files name := by
  rw [dropSource]
  split
  · rw [Store.remove_apply, if_neg away]
  · rfl

theorem dropSource_source :
    dropSource fails files source true source =
      if fails (.deleteSource source) then files source else none := by
  rw [dropSource]
  cases fails (.deleteSource source)
  · exact Function.update_self ..
  · rfl

/-- A child process changes its destination only. -/
theorem runGzip_other {name : LogString} (away : name ≠ destination) :
    runGzip fails files source destination name = files name := by
  rw [runGzip]
  cases files source with
  | none => exact put_other _ away
  | some content =>
      dsimp only
      split <;> exact put_other _ away

theorem runZip_other {name : LogString} (away : name ≠ destination) :
    runZip fails files source destination name = files name := by
  rw [runZip]
  cases files source with
  | none => rfl
  | some content =>
      dsimp only
      split
      · rfl
      · exact put_other _ away

theorem cleared_other (fails : FileOperation → Bool) {name : LogString}
    (away : name ≠ destination) :
    (if File.exists' files destination then (File.deleteFile fails files destination).2
      else files) name = files name := by
  split
  · rw [File.deleteFile_apply, if_neg fun deleted => away deleted.1]
  · rfl

theorem compressAction_cases
    (chosen : compressAction suffixLength source destination = some action) :
    suffixLength = 3 ∧ action = .gzCompress source destination true ∨
      suffixLength = 4 ∧ action = .zipCompress source destination true := by
  rw [compressAction] at chosen
  split at chosen
  · rename_i three
    exact Or.inl ⟨three, (Option.some.inj chosen).symm⟩
  · split at chosen
    · rename_i four
      exact Or.inr ⟨four, (Option.some.inj chosen).symm⟩
    · exact absurd chosen (by simp)

/-- A compression without its source does nothing. -/
theorem execute_missing
    (chosen : compressAction suffixLength source destination = some action)
    (missing : files source = none) : execute fails files action = (some false, files) := by
  obtain ⟨_, rfl⟩ | ⟨_, rfl⟩ := compressAction_cases chosen <;>
    simp [execute, File.exists', missing]

/-- An exception leaves the compression exactly when the child does not start. -/
theorem execute_result (fails : FileOperation → Bool)
    (chosen : compressAction suffixLength source destination = some action)
    (found : files source ≠ none) :
    (execute fails files action).1 =
      if fails (.startProcess source destination) then none else some true := by
  have exists' : File.exists' files source = true := Option.isSome_iff_ne_none.mpr found
  obtain ⟨_, rfl⟩ | ⟨_, rfl⟩ := compressAction_cases chosen
  all_goals
    rw [execute, if_pos exists']
    dsimp only
    split <;> rfl

/-- Only the source and the destination may change. -/
theorem execute_other
    (chosen : compressAction suffixLength source destination = some action) {name : LogString}
    (awayFromSource : name ≠ source) (awayFromDestination : name ≠ destination) :
    (execute fails files action).2 name = files name := by
  obtain ⟨_, rfl⟩ | ⟨_, rfl⟩ := compressAction_cases chosen
  · rw [execute]
    split
    · dsimp only
      split
      · exact put_other _ awayFromDestination
      · show dropSource _ _ _ _ _ = _
        rw [dropSource_other _ awayFromSource, runGzip_other awayFromDestination]
        exact put_other _ awayFromDestination
    · rfl
  · rw [execute]
    split
    · dsimp only
      split
      · exact cleared_other fails awayFromDestination
      · show dropSource _ _ _ _ _ = _
        rw [dropSource_other _ awayFromSource, runZip_other awayFromDestination]
        exact cleared_other fails awayFromDestination
    · rfl

/-- A compression that does not start keeps its source. -/
theorem execute_kept
    (chosen : compressAction suffixLength source destination = some action)
    (different : source ≠ destination)
    (failed : fails (.startProcess source destination) = true) :
    (execute fails files action).2 source = files source := by
  obtain ⟨_, rfl⟩ | ⟨_, rfl⟩ := compressAction_cases chosen
  · rw [execute]
    split
    · exact put_other _ different
    · rfl
  · rw [execute]
    split
    · exact cleared_other fails different
    · rfl

/-- A finished compression leaves the packed content, and the source if its deletion fails. -/
theorem execute_done
    (chosen : compressAction suffixLength source destination = some action)
    (different : source ≠ destination) {content : Content Event}
    (found : files source = some content)
    (started : fails (.startProcess source destination) = false)
    (compressed : fails (.compress source destination) = false) :
    (execute fails files action).2 destination = some (content.packed suffixLength) ∧
      (execute fails files action).2 source =
        if fails (.deleteSource source) then some content else none := by
  have exists' : File.exists' files source = true := by simp [File.exists', found]
  obtain ⟨three, rfl⟩ | ⟨four, rfl⟩ := compressAction_cases chosen
  · have read : files.put destination .empty source = some content :=
      (put_other _ different).trans found
    rw [execute, if_pos exists']
    dsimp only
    rw [if_neg (by simp [started])]
    dsimp only
    rw [dropSource_other _ different.symm, dropSource_source,
      runGzip_other different, runGzip, read]
    simp [compressed, Content.packed, three, Store.put_apply]
  · have read := (cleared_other fails different).trans found
    rw [execute, if_pos exists']
    dsimp only
    rw [if_neg (by simp [started])]
    dsimp only
    rw [dropSource_other _ different.symm, dropSource_source,
      runZip_other different, runZip, read]
    simp [compressed, Content.packed, four, Store.put_apply]

end Action

end CodeCollect.Log4cxx
