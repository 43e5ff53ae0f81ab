import CodeCollect.Library.Moves
import CodeCollect.Log4cxx.FileNamePattern

namespace CodeCollect.Log4cxx

open CodeCollect.Library

/-- Each of these operations may fail on its own. A path names a file with either kind of slash. -/
inductive FileOperation where
  | deleteFile (path : LogString)
  | renameTo (source destination : LogString)
  | startProcess (source destination : LogString)
  | compress (source destination : LogString)
  | deleteSource (path : LogString)
deriving DecidableEq

abbrev Files (Content : Type) := Store LogString Content

namespace File

variable {Content : Type}

def exists' (files : Files Content) (path : LogString) : Bool := (files path).isSome

/-- A failed operation leaves the files unchanged. -/
def deleteFile (fails : FileOperation → Bool) (files : Files Content) (path : LogString) :
    Bool × Files Content :=
  if fails (.deleteFile path) || !exists' files path then (false, files)
  else (true, files.remove path)

theorem deleteFile_done (fails : FileOperation → Bool) (files : Files Content)
    (path : LogString) :
    (deleteFile fails files path).1 = true ↔
      fails (.deleteFile path) = false ∧ files path ≠ none := by
  rw [deleteFile]
  cases failed : fails (.deleteFile path) <;> cases found : files path <;>
    simp [exists', found]

/-- Only the deleted path changes, and only when the operation succeeds. -/
theorem deleteFile_apply (fails : FileOperation → Bool) (files : Files Content)
    (path other : LogString) :
    (deleteFile fails files path).2 other =
      if other = path ∧ fails (.deleteFile path) = false then none else files other := by
  rw [deleteFile]
  cases failed : fails (.deleteFile path) with
  | true => simp
  | false =>
      cases found : files path with
      | none =>
          by_cases same : other = path
          · simp [exists', same, found]
          · simp [exists', same, found]
      | some content => simp [exists', found, Store.remove_apply]

end File

/-- A rename action holds its source and its destination. -/
abbrev FileRenameAction := Move LogString

def FileRenameAction.fails (fails : FileOperation → Bool) (self : FileRenameAction) : Bool :=
  fails (.renameTo self.source self.target)

structure FixedWindowRollingPolicy where
  minIndex : Int
  maxIndex : Int
  fileNamePattern : FileNamePattern
  explicitActiveFile : Bool
deriving DecidableEq, Repr

/-- This is `substr` without the last characters. A negative count wraps and keeps the name. -/
def baseName (suffixLength : Nat) (name : LogString) : LogString :=
  if name.length < suffixLength then name else name.take (name.length - suffixLength)

@[simp] theorem baseName_zero (name : LogString) : baseName 0 name = name := by
  simp [baseName]

namespace FixedWindowRollingPolicy

/-- The call `compare` throws when its position is beyond the end of the string. -/
def compareEnd (name : LogString) (count : Nat) (suffix : LogString) : Option Bool :=
  if name.length < count then none else some (name.drop (name.length - count) == suffix)

/-- The start of `purge` reads the last characters of the lowest name. -/
def suffixLengthOf (lowFilename : LogString) : Option Nat := do
  if ← compareEnd lowFilename 3 ['.', 'g', 'z'] then return 3
  if ← compareEnd lowFilename 4 ['.', 'z', 'i', 'p'] then return 4
  return 0

variable {Content : Type}

/-- This is the loop of `purge` from an index on, with so many indices up to the last one. -/
def collectRenames (pattern : FileNamePattern) (fails : FileOperation → Bool)
    (suffixLength : Nat) :
    Nat → Int → Files Content → Files Content × Option (List FileRenameAction)
  | remaining, i, files =>
      let lowFilename := pattern.formatFileName i
      let toRenameBase := baseName suffixLength lowFilename
      let compressed := File.exists' files lowFilename
      let isBase := decide (0 < suffixLength) && !compressed
      let toRename := if isBase then toRenameBase else lowFilename
      let swept :=
        if 0 < suffixLength && compressed && File.exists' files toRenameBase then
          (File.deleteFile fails files toRenameBase).2
        else files
      if File.exists' files toRename then
        match remaining with
        | 0 =>
            let deleted := File.deleteFile fails swept toRename
            (deleted.2, if deleted.1 then some [] else none)
        | remaining + 1 =>
            let highFilename := pattern.formatFileName (i + 1)
            let renameTo := if isBase then baseName suffixLength highFilename else highFilename
            let rest := collectRenames pattern fails suffixLength remaining (i + 1) swept
            (rest.1, rest.2.map fun renames => ⟨toRename, renameTo⟩ :: renames)
      else (swept, some [])

/-- The result is missing when an exception leaves `purge`, which is before any file operation. -/
def purge (pattern : FileNamePattern) (fails : FileOperation → Bool) (lowIndex highIndex : Int)
    (files : Files Content) : Option (Moved LogString Content) := do
  let suffixLength ← suffixLengthOf (pattern.formatFileName lowIndex)
  let collected :=
    if lowIndex ≤ highIndex then
      collectRenames pattern fails suffixLength (highIndex - lowIndex).toNat lowIndex files
    else (files, some [])
  match collected.2 with
  | none => return ⟨false, collected.1, []⟩
  | some renames =>
      return Store.moveAll (FileRenameAction.fails fails) renames.reverse collected.1

end FixedWindowRollingPolicy

end CodeCollect.Log4cxx
