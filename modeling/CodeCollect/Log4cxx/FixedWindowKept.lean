import CodeCollect.Log4cxx.FixedWindowArchives

namespace CodeCollect.Log4cxx

open CodeCollect.Library

namespace FixedWindowRollingPolicy

variable {Event : Type}

/-- The archives of the policy are at these indices, with one above a window without any. -/
def window (policy : FixedWindowRollingPolicy) : Set Int :=
  Set.Icc policy.purgeStart (max policy.purgeStart policy.maxIndex)

/-- A content is in the active file or in the file that stands for an index of the window. -/
def Keeping (policy : FixedWindowRollingPolicy) (self : RollingFileAppender Event)
    (content : Content Event) : Prop :=
  (∃ stored, self.files self.fileName = some stored ∧ content.HeldIn stored) ∨
    ∃ i ∈ policy.window, ∃ stored,
      self.files (standing policy.fileNamePattern policy.suffixLength self.files i) =
        some stored ∧ content.HeldIn stored

/-- A rollover of this policy neither overwrites a file of its own nor loses its compression. -/
structure Safe (policy : FixedWindowRollingPolicy) (fails : FileOperation → Bool)
    (appender : RollingFileAppender Event) : Prop where
  injective : Set.InjOn policy.fileNamePattern.formatFileName policy.window
  apart : Apart policy policy.window appender.fileName
  archive : fails (.renameTo appender.fileName
      (baseName policy.suffixLength policy.archiveName)) = true ∨
    (policy.purgeStart ≤ policy.maxIndex ∨ ∀ name,
      OfIndex policy.fileNamePattern policy.suffixLength policy.purgeStart name →
        appender.files name = none) ∧
    (0 < policy.suffixLength →
      fails (.startProcess (baseName policy.suffixLength policy.archiveName)
        policy.archiveName) = false ∧
      fails (.compress (baseName policy.suffixLength policy.archiveName)
        policy.archiveName) = false)

section Step

variable {policy : FixedWindowRollingPolicy} {fails : FileOperation → Bool}
  {self : RollingFileAppender Event}

/-- Every purge keeps the contents of the window standing, apart from the one that it drops. -/
theorem purge_keeps (fails : FileOperation → Bool) (files : Files (Content Event))
    (injective : Set.InjOn policy.fileNamePattern.formatFileName policy.window)
    (read : suffixLengthOf policy.archiveName = some policy.suffixLength)
    (nonnegative : 0 ≤ policy.maxIndex) :
    ∃ result, purge policy.fileNamePattern fails policy.purgeStart policy.maxIndex files =
        some result ∧
      (∀ name, Apart policy policy.window name → result.store name = files name) ∧
      (policy.maxIndex < policy.purgeStart → result.store = files) ∧
      ∀ i ∈ policy.window, ∀ stored,
        files (standing policy.fileNamePattern policy.suffixLength files i) = some stored →
          (∃ j ∈ policy.window, result.store (standing policy.fileNamePattern
              policy.suffixLength result.store j) = some stored ∧
            (result.done = true → policy.purgeStart < j ∨ policy.maxIndex < policy.purgeStart)) ∨
          policy.dropped fails files = some stored := by
  by_cases ordered : policy.purgeStart ≤ policy.maxIndex
  · have whole : policy.window = Set.Icc policy.purgeStart policy.maxIndex := by
      rw [window, max_eq_right ordered]
    rw [whole] at injective ⊢
    obtain ⟨distinct, inside, last, count, collected⟩ := collected_of_injOn fails files
      injective read (fun _ member => member) ordered
    refine ⟨_, purge_eq read ordered, ?_, fun empty => absurd ordered (by omega), ?_⟩
    · intro name apart
      exact collected.frame name fun k small => apart _ (inside k small) (by omega)
    · intro i member stored found
      obtain ⟨k, rfl⟩ := Int.le.dest member.1
      have upper := member.2
      rcases collected.stands distinct inside (k := k) (by omega) found with
        ⟨j, small, stands, moved⟩ | ⟨top, gone⟩
      · exact Or.inl ⟨_, inside j small, stands, fun done => Or.inl (by have := moved done; omega)⟩
      · right
        have index : policy.purgeStart + (k : Int) = policy.maxIndex := by rw [top, last]
        rw [index] at found gone
        simp only [dropped, show suffixLengthOf (policy.fileNamePattern.formatFileName
          policy.purgeStart) = some policy.suffixLength from read, Option.bind_eq_bind,
          Option.bind_some, guard, nonnegative, ordered, and_self, if_true, gone,
          Option.isNone_none, found, pure]
  · have empty : policy.maxIndex < policy.purgeStart := by omega
    refine ⟨_, purge_empty read empty, fun _ _ => rfl, fun _ => rfl, ?_⟩
    intro i member stored found
    exact Or.inl ⟨i, member, found, fun _ => Or.inr empty⟩

/-- Work on other files leaves the contents of the window standing. -/
theorem standing_congr_apart {indices : Set Int} {files other : Files (Content Event)} {i : Int}
    (inside : i ∈ indices) (above : policy.purgeStart ≤ i)
    (same : ∀ name, Apart policy indices name ∨ other name = files name) :
    other (standing policy.fileNamePattern policy.suffixLength other i) =
      files (standing policy.fileNamePattern policy.suffixLength files i) := by
  have here : ∀ name, OfIndex policy.fileNamePattern policy.suffixLength i name →
      other name = files name :=
    fun name ofI => (same name).resolve_left fun apart => apart i inside above ofI
  rw [(standing_congr here).1, here _ (standing_ofIndex files i)]

/-- A write to the active file keeps all contents. -/
theorem Keeping.write {content : Content Event} (kept : policy.Keeping self content)
    (text : Record Event) :
    policy.Keeping
      { self with files := RollingFileAppender.appendRecord self.files self.fileName text }
      content := by
  have extended : ∀ name stored, self.files name = some stored → content.HeldIn stored →
      ∃ stored, RollingFileAppender.appendRecord self.files self.fileName text name =
        some stored ∧ content.HeldIn stored := by
    intro name stored found held
    by_cases active : name = self.fileName
    · subst active
      exact ⟨_, RollingFileAppender.appendRecord_self found, held.record text⟩
    · exact ⟨stored, (RollingFileAppender.appendRecord_other active).trans found, held⟩
  rcases kept with ⟨stored, found, held⟩ | ⟨i, inside, stored, found, held⟩
  · exact Or.inl (extended _ stored found held)
  · refine Or.inr ⟨i, inside, ?_⟩
    dsimp only
    have same : standing policy.fileNamePattern policy.suffixLength
        (RollingFileAppender.appendRecord self.files self.fileName text) i =
          standing policy.fileNamePattern policy.suffixLength self.files i := by
      simp only [standing, RollingFileAppender.appendRecord_eq_none]
    rw [same]
    exact extended _ stored found held

/-- The active file and the window keep all contents when the active file is opened again. -/
theorem keeping_reopen (apart : Apart policy policy.window self.fileName)
    {files : Files (Content Event)} {append : Bool} {content : Content Event}
    (kept : (∃ stored, files self.fileName = some stored ∧ append = true ∧
        content.HeldIn stored) ∨
      ∃ i ∈ policy.window, ∃ stored,
        files (standing policy.fileNamePattern policy.suffixLength files i) = some stored ∧
          content.HeldIn stored) :
    policy.Keeping (self.reopen files append) content := by
  rcases kept with ⟨stored, found, appends, held⟩ | ⟨i, inside, stored, found, held⟩
  · obtain ⟨reopened, here, keeps⟩ := RollingFileAppender.reopened_self self.utf16
      files self.fileName append
    exact Or.inl ⟨_, here, (held.trans (keeps appends stored found)).record _⟩
  · refine Or.inr ⟨i, inside, stored, ?_, held⟩
    refine (standing_congr_apart inside inside.1 fun name => ?_).trans found
    by_cases active : name = self.fileName
    · exact Or.inl (active ▸ apart)
    · exact Or.inr (RollingFileAppender.reopened_other _ _ active)

/-- A rename that fails leaves all contents behind in the window and in the active file. -/
theorem keeping_unrenamed (apart : Apart policy policy.window self.fileName)
    {files : Files (Content Event)} {content : Content Event}
    (kept : policy.Keeping { self with files } content) :
    policy.Keeping (self.reopen (RollingFileAppender.appendRecord files self.fileName .footer)
      true) content := by
  apply keeping_reopen apart
  rcases kept with ⟨stored, found, held⟩ | ⟨i, inside, stored, found, held⟩
  · exact Or.inl ⟨_, RollingFileAppender.appendRecord_self found, rfl, held.record _⟩
  · refine Or.inr ⟨i, inside, stored, ?_, held⟩
    refine (standing_congr_apart inside inside.1 fun name => ?_).trans found
    by_cases active : name = self.fileName
    · exact Or.inl (active ▸ apart)
    · exact Or.inr (RollingFileAppender.appendRecord_other active)

/-- The new archive stands at the lowest index, and the others are above it. -/
theorem keeping_archived (distinct : DistinctNames policy.fileNamePattern policy.suffixLength
      policy.window)
    (apart : Apart policy policy.window self.fileName) {before files : Files (Content Event)}
    {active : Content Event} (found : before self.fileName = some active)
    (archive : files policy.archiveName =
      some ((active.record .footer).packed policy.suffixLength))
    (others : ∀ name, name ≠ self.fileName →
      name ≠ baseName policy.suffixLength policy.archiveName → name ≠ policy.archiveName →
        files name = before name)
    {content : Content Event}
    (kept : (∃ stored, before self.fileName = some stored ∧ content.HeldIn stored) ∨
      ∃ i ∈ policy.window, policy.purgeStart < i ∧ ∃ stored,
        before (standing policy.fileNamePattern policy.suffixLength before i) = some stored ∧
          content.HeldIn stored) :
    policy.Keeping (self.reopen files false) content := by
  have lowest : policy.purgeStart ∈ policy.window := ⟨le_refl _, le_max_left _ _⟩
  apply keeping_reopen apart
  right
  rcases kept with ⟨stored, there, held⟩ | ⟨i, inside, above, stored, there, held⟩
  · obtain rfl := Option.some.inj (there.symm.trans found)
    refine ⟨policy.purgeStart, lowest, _, ?_, (held.record .footer).trans
      (Content.heldIn_packed _ policy.suffixLength)⟩
    rw [standing, if_neg]
    · exact archive
    · rintro ⟨_, missing⟩
      exact Option.some_ne_none _ (archive.symm.trans missing)
  · have same : ∀ name, OfIndex policy.fileNamePattern policy.suffixLength i name →
        files name = before name := by
      intro name ofI
      have different : ∀ other,
          OfIndex policy.fileNamePattern policy.suffixLength policy.purgeStart other →
            name ≠ other := by
        rintro _ ofLow rfl
        exact absurd (OfIndex.unique distinct inside lowest ofI ofLow) (by omega)
      exact others name (fun active => apart i inside inside.1 (active ▸ ofI))
        (different _ (Or.inr rfl)) (different _ (Or.inl rfl))
    refine ⟨i, inside, stored, ?_, held⟩
    rw [(standing_congr same).1, same _ (standing_ofIndex before i), there]

/-- The purge has left a content in the active file or at an index of which this is true. -/
def Left (policy : FixedWindowRollingPolicy) (self : RollingFileAppender Event)
    (store : Files (Content Event)) (at' : Int → Prop) (content : Content Event) : Prop :=
  (∃ stored, store self.fileName = some stored ∧ content.HeldIn stored) ∨
    ∃ i ∈ policy.window, at' i ∧ ∃ stored,
      store (standing policy.fileNamePattern policy.suffixLength store i) = some stored ∧
        content.HeldIn stored

theorem Left.keeping {store : Files (Content Event)} {at' : Int → Prop}
    {content : Content Event} (left : policy.Left self store at' content) :
    policy.Keeping { self with files := store } content :=
  left.imp_right fun ⟨i, inside, _, stands⟩ => ⟨i, inside, stands⟩

/-- A window without archives has a free index before each safe rollover that renames. -/
theorem Safe.above (safe : policy.Safe fails self)
    (renamed : fails (.renameTo self.fileName
      (baseName policy.suffixLength policy.archiveName)) = false)
    {store : Files (Content Event)} (empty : policy.maxIndex < policy.purgeStart →
      store = self.files) {content : Content Event}
    (left : policy.Left self store
      (fun i => policy.purgeStart < i ∨ policy.maxIndex < policy.purgeStart) content) :
    policy.Left self store (policy.purgeStart < ·) content := by
  refine left.imp_right ?_
  rintro ⟨i, inside, above | none, stored, stands, held⟩
  · exact ⟨i, inside, above, stored, stands, held⟩
  · obtain rfl := empty none
    obtain rfl : i = policy.purgeStart :=
      le_antisymm (inside.2.trans (max_le (le_refl _) none.le)) inside.1
    obtain ⟨room, _⟩ := safe.archive.resolve_left (by simp [renamed])
    have free := room.resolve_left (by omega) _ (standing_ofIndex self.files policy.purgeStart)
    exact absurd (stands.symm.trans free) (Option.some_ne_none _)

/-- A safe rollover behind a successful purge goes on with the old file or with a new one. -/
theorem keeping_purged (opened : self.Open) (fixed : self.rollingPolicy = .fixedWindow policy)
    (now : Int) (safe : policy.Safe fails self) (nonnegative : 0 ≤ policy.maxIndex)
    {result : Moved LogString (Content Event)}
    (purged : purge policy.fileNamePattern fails policy.purgeStart policy.maxIndex self.files =
      some result) (done : result.done = true)
    (frame : ∀ name, Apart policy policy.window name → result.store name = self.files name)
    (empty : policy.maxIndex < policy.purgeStart → result.store = self.files) :
    ((self.rollover now fails).Open ∧ (self.rollover now fails).fileName = self.fileName ∧
        (self.rollover now fails).rollingPolicy = .fixedWindow policy) ∧
      ∀ content, policy.Left self result.store
          (fun i => policy.purgeStart < i ∨ policy.maxIndex < policy.purgeStart) content →
        policy.Keeping (self.rollover now fails) content := by
  obtain ⟨active, found⟩ := Option.ne_none_iff_exists'.mp opened.exists'
  have there := (frame _ safe.apart).trans found
  rw [RollingFileAppender.rollover_purged fixed now fails nonnegative purged done]
  cases renamed : fails (.renameTo self.fileName
      (baseName policy.suffixLength policy.archiveName)) with
  | true =>
      rw [RollingFileAppender.rolloverSameFile_unrenamed { self with files := result.store } fails
        (by exact opened.writer) renamed]
      exact ⟨⟨RollingFileAppender.open_reopen (by exact opened.notClosed) _ _, rfl, fixed⟩,
        fun content left => keeping_unrenamed safe.apart left.keeping⟩
  | false =>
      obtain ⟨_, works⟩ := safe.archive.resolve_left (by simp [renamed])
      obtain ⟨files, rolled, archive, _, others⟩ :=
        RollingFileAppender.rolloverSameFile_archives { self with files := result.store } fails
          opened.writer there
          (RollingFileAppender.archiveNames_compressedLength policy.archiveName) renamed works
      rw [show policy.suffixLength = compressedLength policy.archiveName from rfl, rolled]
      exact ⟨⟨RollingFileAppender.open_reopen (by exact opened.notClosed) _ _, rfl, fixed⟩,
        fun content left => keeping_archived (policy.distinctNames_suffixLength safe.injective)
          safe.apart there archive others (safe.above renamed empty left)⟩

/-- A safe rollover keeps the appender open and all contents, apart from what its purge drops. -/
theorem keeping_rollover (opened : self.Open) (fixed : self.rollingPolicy = .fixedWindow policy)
    (now : Int)
    (safe : suffixLengthOf policy.archiveName ≠ none → 0 ≤ policy.maxIndex →
      policy.Safe fails self) :
    ((self.rollover now fails).Open ∧ (self.rollover now fails).fileName = self.fileName ∧
        (self.rollover now fails).rollingPolicy = .fixedWindow policy) ∧
      ∀ content, policy.Keeping self content →
        policy.Keeping (self.rollover now fails) content ∨
          ∃ dropped, policy.dropped fails self.files = some dropped ∧
            content.HeldIn dropped := by
  cases read : suffixLengthOf policy.archiveName with
  | none =>
      rw [RollingFileAppender.rollover_threw fixed now fails (purge_unread read)]
      exact ⟨⟨opened, rfl, fixed⟩, fun content kept => Or.inl kept⟩
  | some length =>
      by_cases nonnegative : 0 ≤ policy.maxIndex
      · obtain rfl : length = policy.suffixLength := suffixLengthOf_eq read
        have safe := safe (by rw [read]; exact Option.some_ne_none _) nonnegative
        obtain ⟨result, purged, frame, empty, keeps⟩ :=
          purge_keeps fails self.files safe.injective read nonnegative
        have after : ∀ content, policy.Keeping self content →
            policy.Left self result.store (fun i => result.done = true →
                policy.purgeStart < i ∨ policy.maxIndex < policy.purgeStart) content ∨
              ∃ dropped, policy.dropped fails self.files = some dropped ∧
                content.HeldIn dropped := by
          rintro content (⟨stored, here, held⟩ | ⟨i, inside, stored, stands, held⟩)
          · exact Or.inl (Or.inl ⟨stored, (frame _ safe.apart).trans here, held⟩)
          · rcases keeps i inside stored stands with ⟨j, member, stands, above⟩ | dropped
            · exact Or.inl (Or.inr ⟨j, member, above, stored, stands, held⟩)
            · exact Or.inr ⟨stored, dropped, held⟩
        cases done : result.done with
        | false =>
            rw [RollingFileAppender.rollover_refused fixed now fails nonnegative purged done]
            refine ⟨⟨⟨opened.notClosed, opened.writer, ?_⟩, rfl, fixed⟩, fun content kept =>
              (after content kept).imp_left Left.keeping⟩
            exact fun missing => opened.exists' ((frame _ safe.apart).symm.trans missing)
        | true =>
            obtain ⟨kind, keeping⟩ :=
              keeping_purged opened fixed now safe nonnegative purged done frame empty
            refine ⟨kind, fun content kept => (after content kept).imp_left fun left => ?_⟩
            exact keeping content (left.imp_right fun ⟨i, inside, above, stands⟩ =>
              ⟨i, inside, above done, stands⟩)
      · rw [RollingFileAppender.rollover_negative fixed now fails nonnegative]
        exact ⟨⟨opened, rfl, fixed⟩, fun content kept => Or.inl kept⟩

end Step

end FixedWindowRollingPolicy

end CodeCollect.Log4cxx
