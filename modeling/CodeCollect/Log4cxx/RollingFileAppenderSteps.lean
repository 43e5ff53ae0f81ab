import CodeCollect.Log4cxx.RollingFileAppender

namespace CodeCollect.Log4cxx

open CodeCollect.Library

variable {Event : Type}

/-- A stored content begins with another one, perhaps inside of archives. -/
inductive Content.HeldIn (content : Content Event) : Content Event → Prop where
  | same : HeldIn content content
  | record {stored : Content Event} (last : Record Event) :
      HeldIn content stored → HeldIn content (stored.record last)
  | gzip {stored : Content Event} : HeldIn content stored → HeldIn content stored.gzip
  | zip {stored : Content Event} : HeldIn content stored → HeldIn content stored.zip

theorem Content.HeldIn.trans {first second third : Content Event} (holds : HeldIn first second)
    (further : HeldIn second third) : HeldIn first third := by
  induction further with
  | same => exact holds
  | record last _ ih => exact ih.record last
  | gzip _ ih => exact ih.gzip
  | zip _ ih => exact ih.zip

theorem Content.heldIn_packed (content : Content Event) (suffixLength : Nat) :
    HeldIn content (content.packed suffixLength) := by
  rw [packed]
  split
  · exact HeldIn.same.gzip
  · split
    · exact HeldIn.same.zip
    · exact HeldIn.same

namespace RollingFileAppender

section Files

variable {files : Files (Content Event)} {path name : LogString} {text : Record Event}

theorem appendRecord_other (away : name ≠ path) : appendRecord files path text name = files name :=
  if_neg away

theorem appendRecord_self {content : Content Event} (found : files path = some content) :
    appendRecord files path text path = some (content.record text) := by
  rw [appendRecord, if_pos rfl, found]
  rfl

theorem appendRecord_eq_none : appendRecord files path text name = none ↔ files name = none := by
  rw [appendRecord]
  split
  · rename_i same
    rw [same, Option.map_eq_none_iff]
  · rfl

/-- These are the files after `setFile` has opened its file and written to it. -/
def reopened (utf16 : Bool) (files : Files (Content Event)) (path : LogString) (append : Bool) :
    Files (Content Event) :=
  let opened := openStream files path append
  let marked :=
    if utf16 && (!append || !File.exists' files path) then
      appendRecord opened path .byteOrderMark
    else opened
  appendRecord marked path .header

theorem reopened_other (utf16 append : Bool) (away : name ≠ path) :
    reopened utf16 files path append name = files name := by
  have opened : openStream files path append name = files name :=
    Function.update_of_ne away ..
  rw [reopened, appendRecord_other away]
  split
  · rw [appendRecord_other away]
    exact opened
  · exact opened

/-- A file that is opened for appending keeps its content. -/
theorem reopened_self (utf16 : Bool) (files : Files (Content Event)) (path : LogString)
    (append : Bool) :
    ∃ content, reopened utf16 files path append path = some (content.record .header) ∧
      (append = true → ∀ before, files path = some before → before.HeldIn content) := by
  have opened : openStream files path append path =
      some (if append then (files path).getD .empty else .empty) :=
    Function.update_self ..
  have kept : append = true → ∀ before, files path = some before →
      before.HeldIn (if append then (files path).getD .empty else .empty) := by
    rintro rfl before found
    rw [if_pos rfl, found]
    exact Content.HeldIn.same
  rw [reopened]
  split
  · exact ⟨_, appendRecord_self (appendRecord_self opened),
      fun appends before found => (kept appends before found).record _⟩
  · exact ⟨_, appendRecord_self opened, kept⟩

end Files

theorem perform_none (fails : FileOperation → Bool) (files : Files (Content Event)) :
    perform fails files none = (some true, files) := rfl

variable (self : RollingFileAppender Event)

theorem write_eq {path : LogString} (opened : self.writer = some path) (text : Record Event) :
    self.write text = { self with files := appendRecord self.files path text } := by
  rw [write, opened]

theorem closeWriter_eq {path : LogString} (opened : self.writer = some path) :
    self.closeWriter =
      { self with files := appendRecord self.files path .footer, writer := none } := by
  rw [closeWriter, opened]
  dsimp only
  rw [write_eq self opened]

/-- This is an appender that has opened its file again after all work on the files. -/
def reopen (files : Files (Content Event)) (append : Bool) : RollingFileAppender Event :=
  { self with
    files := reopened self.utf16 files self.fileName append
    writer := some self.fileName
    fileAppend := append }

theorem setFile_eq (shut : self.writer = none) (filename : LogString) (append : Bool) :
    self.setFile filename append =
      ({ self with fileName := filename } : RollingFileAppender Event).reopen self.files append
        := by
  have closed : self.closeWriter = self := by rw [closeWriter, shut]
  rw [setFile, closed]
  split
  · rename_i marks
    rw [write_eq _ rfl, write_eq _ rfl, reopen, reopened]
    dsimp only
    rw [if_pos marks]
  · rename_i plain
    rw [write_eq _ rfl, reopen, reopened]
    dsimp only
    rw [if_neg plain]

/-- A rollover that keeps the active file opens it again, unless an exception comes first. -/
theorem rolloverSameFile_cases (fails : FileOperation → Bool) (description : RolloverDescription)
    (opened : self.writer = some self.fileName)
    (same : description.activeFileName = self.fileName) :
    ∃ synchronous, synchronous = perform fails (appendRecord self.files self.fileName .footer)
        description.synchronous ∧
      (synchronous.1 ≠ some true ∧
          self.rolloverSameFile fails description = self.reopen synchronous.2 true ∨
        ∃ asynchronous, asynchronous = perform fails synchronous.2 description.asynchronous ∧
          synchronous.1 = some true ∧
          (asynchronous.1 = none ∧ self.rolloverSameFile fails description =
              { self with files := asynchronous.2, writer := none } ∨
            asynchronous.1 ≠ none ∧ self.rolloverSameFile fails description =
              self.reopen asynchronous.2 description.append)) := by
  refine ⟨_, rfl, ?_⟩
  rw [rolloverSameFile, closeWriter_eq self opened, same]
  dsimp only
  split
  · rename_i success
    refine Or.inr ⟨_, rfl, success, ?_⟩
    split
    · rename_i threw
      exact Or.inl ⟨Option.isNone_iff_eq_none.mp threw, rfl⟩
    · rename_i returned
      refine Or.inr ⟨Option.isNone_iff_eq_none.not.mp returned, ?_⟩
      rw [setFile_eq _ rfl]
      rfl
  · rename_i failed
    refine Or.inl ⟨failed, ?_⟩
    rw [setFile_eq _ rfl]
    rfl

/-- An archive is compressed from its base file, or it is the base file itself. -/
structure ArchiveNames (suffixLength : Nat) (base full : LogString) : Prop where
  suffix : suffixLength = 0 ∨ suffixLength = 3 ∨ suffixLength = 4
  plain : suffixLength = 0 → base = full
  compressed : 0 < suffixLength → base ≠ full

/-- A name that ends in a suffix of compression is longer than its base. -/
theorem archiveNames_compressedLength (name : LogString) :
    ArchiveNames (compressedLength name) (baseName (compressedLength name) name) name := by
  have shorter : ∀ count, 0 < count → count ≤ name.length → baseName count name ≠ name := by
    intro count positive bound same
    have lengths := congrArg List.length same
    rw [baseName, if_neg (by omega), List.length_take] at lengths
    omega
  have longEnough : ∀ suffix : LogString, StringHelper.endsWith name suffix = true →
      suffix.length ≤ name.length :=
    fun suffix ends => ((StringHelper.endsWith_iff name suffix).mp ends).length_le
  rw [compressedLength]
  split
  · rename_i gzip
    exact ⟨Or.inr (Or.inl rfl), fun impossible => absurd impossible (by simp),
      fun positive => shorter 3 positive (longEnough _ gzip)⟩
  · split
    · rename_i zip
      exact ⟨Or.inr (Or.inr rfl), fun impossible => absurd impossible (by simp),
        fun positive => shorter 4 positive (longEnough _ zip)⟩
    · exact ⟨Or.inl rfl, fun _ => baseName_zero name, fun impossible => absurd impossible (by simp)⟩

/-- Such a name is compressed when it has a suffix. -/
theorem ArchiveNames.compressAction {suffixLength : Nat} {base full : LogString}
    (names : ArchiveNames suffixLength base full) (suffixed : 0 < suffixLength) :
    ∃ action, CodeCollect.Log4cxx.compressAction suffixLength base full = some action := by
  rcases names.suffix with plain | rfl | rfl
  · exact absurd plain (Nat.ne_of_gt suffixed)
  · exact ⟨_, rfl⟩
  · exact ⟨_, rfl⟩

/-- A compression whose child works turns the base file into the archive. -/
theorem perform_compress (fails : FileOperation → Bool) {files : Files (Content Event)}
    {suffixLength : Nat} {base full : LogString} {content : Content Event}
    (names : ArchiveNames suffixLength base full) (found : files base = some content)
    (works : 0 < suffixLength → fails (.startProcess base full) = false ∧
      fails (.compress base full) = false) :
    (perform fails files (compressAction suffixLength base full)).1 ≠ none ∧
      (perform fails files (compressAction suffixLength base full)).2 full =
        some (content.packed suffixLength) ∧
      (0 < suffixLength → (perform fails files (compressAction suffixLength base full)).2 base =
        if fails (.deleteSource base) then some content else none) ∧
      ∀ name, name ≠ base → name ≠ full →
        (perform fails files (compressAction suffixLength base full)).2 name = files name := by
  cases chosen : compressAction suffixLength base full with
  | none =>
      have plain : suffixLength = 0 := by
        rcases names.suffix with plain | rfl | rfl
        · exact plain
        · exact absurd chosen (by simp [compressAction])
        · exact absurd chosen (by simp [compressAction])
      subst plain
      obtain rfl := names.plain rfl
      exact ⟨Option.some_ne_none _, found, fun impossible => absurd impossible (Nat.lt_irrefl 0),
        fun _ _ _ => rfl⟩
  | some action =>
      have suffixed : 0 < suffixLength := by
        rcases names.suffix with rfl | rfl | rfl
        · exact absurd chosen (by simp [compressAction])
        · exact Nat.zero_lt_succ 2
        · exact Nat.zero_lt_succ 3
      obtain ⟨started, compressed⟩ := works suffixed
      have done := Action.execute_done chosen (names.compressed suffixed) found started compressed
      have result := Action.execute_result fails chosen
        (show files base ≠ none by rw [found]; exact Option.some_ne_none _)
      refine ⟨?_, done.1, fun _ => done.2, fun name => Action.execute_other chosen⟩
      rw [perform, result, started]
      exact Option.some_ne_none _

/-- A rollover whose operations work archives the active file and opens it anew. -/
theorem rolloverSameFile_archives (fails : FileOperation → Bool) {suffixLength : Nat}
    {base full : LogString} {content : Content Event}
    (opened : self.writer = some self.fileName)
    (found : self.files self.fileName = some content)
    (names : ArchiveNames suffixLength base full)
    (renamed : fails (.renameTo self.fileName base) = false)
    (works : 0 < suffixLength → fails (.startProcess base full) = false ∧
      fails (.compress base full) = false) :
    ∃ files, self.rolloverSameFile fails ⟨self.fileName, false,
        some (.rename ⟨self.fileName, base⟩), compressAction suffixLength base full⟩ =
          self.reopen files false ∧
      files full = some ((content.record .footer).packed suffixLength) ∧
      (0 < suffixLength → files base =
        if fails (.deleteSource base) then some (content.record .footer) else none) ∧
      ∀ name, name ≠ self.fileName → name ≠ base → name ≠ full →
        files name = self.files name := by
  have footed : appendRecord self.files self.fileName .footer self.fileName =
      some (content.record .footer) := appendRecord_self found
  have made : perform fails (appendRecord self.files self.fileName .footer)
      (some (.rename ⟨self.fileName, base⟩)) = (some true,
        (appendRecord self.files self.fileName .footer).move self.fileName base) := by
    rw [perform, Action.execute_rename, if_pos]
    exact ⟨renamed, by rw [footed]; exact Option.some_ne_none _⟩
  have target : (appendRecord self.files self.fileName .footer).move self.fileName base base =
      some (content.record .footer) := by
    rw [Store.move_target, footed]
  obtain ⟨returned, archive, leftover, others⟩ :=
    perform_compress fails names target works
  obtain ⟨_, rfl, cases⟩ := self.rolloverSameFile_cases fails ⟨self.fileName, false,
    some (.rename ⟨self.fileName, base⟩), compressAction suffixLength base full⟩ opened rfl
  rw [made] at cases
  rcases cases with ⟨failed, _⟩ | ⟨_, rfl, _, ⟨threw, _⟩ | ⟨_, result⟩⟩
  · exact absurd rfl failed
  · exact absurd threw returned
  · refine ⟨_, result, archive, leftover, fun name away awayFromBase awayFromFull => ?_⟩
    rw [others name awayFromBase awayFromFull, Store.move_other _ _ _ _ away awayFromBase,
      appendRecord_other away]

/-- A rollover whose rename fails goes on with the same file. -/
theorem rolloverSameFile_unrenamed (fails : FileOperation → Bool) {base : LogString}
    (opened : self.writer = some self.fileName)
    (failed : fails (.renameTo self.fileName base) = true) (asynchronous : Option Action) :
    self.rolloverSameFile fails
        ⟨self.fileName, false, some (.rename ⟨self.fileName, base⟩), asynchronous⟩ =
      self.reopen (appendRecord self.files self.fileName .footer) true := by
  have refused : perform fails (appendRecord self.files self.fileName .footer)
      (some (.rename ⟨self.fileName, base⟩)) =
        (some false, appendRecord self.files self.fileName .footer) := by
    rw [perform, Action.execute_rename, if_neg]
    exact fun works => Bool.false_ne_true (works.1.symm.trans failed)
  obtain ⟨_, rfl, cases⟩ := self.rolloverSameFile_cases fails
    ⟨self.fileName, false, some (.rename ⟨self.fileName, base⟩), asynchronous⟩ opened rfl
  rw [refused] at cases
  rcases cases with ⟨_, result⟩ | ⟨_, _, impossible, _⟩
  · exact result
  · exact absurd impossible (by simp)

/-- A rollover without a synchronous action to a new file has that file open in any case. -/
theorem rolloverOtherFile_cases (fails : FileOperation → Bool)
    (description : RolloverDescription) (opened : self.writer = some self.fileName)
    (absent : description.synchronous = none) :
    ∃ asynchronous, asynchronous = perform fails
        (appendRecord (openStream self.files description.activeFileName description.append)
          self.fileName .footer) description.asynchronous ∧
      (asynchronous.1 = none ∧ self.rolloverOtherFile fails description =
          { self with
            fileName := description.activeFileName
            writer := some description.activeFileName
            files := asynchronous.2 } ∨
        asynchronous.1 ≠ none ∧ self.rolloverOtherFile fails description =
          { self with
            fileName := description.activeFileName
            writer := some description.activeFileName
            files := appendRecord asynchronous.2 description.activeFileName .header }) := by
  refine ⟨_, rfl, ?_⟩
  have closed := closeWriter_eq
    { self with files := openStream self.files description.activeFileName description.append }
    opened
  rw [rolloverOtherFile, absent]
  dsimp only at closed ⊢
  rw [closed, perform_none]
  dsimp only
  rw [if_pos rfl]
  split
  · rename_i threw
    exact Or.inl ⟨Option.isNone_iff_eq_none.mp threw, rfl⟩
  · rename_i returned
    exact Or.inr ⟨Option.isNone_iff_eq_none.not.mp returned, write_eq _ rfl _⟩

end RollingFileAppender

end CodeCollect.Log4cxx
