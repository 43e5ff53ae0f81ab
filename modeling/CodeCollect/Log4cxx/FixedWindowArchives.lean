import CodeCollect.Log4cxx.RollingFileAppenderRun

namespace CodeCollect.Log4cxx

open CodeCollect.Library

namespace FixedWindowRollingPolicy

theorem endsWith_iff_compareEnd (name suffix : LogString) (count : Nat)
    (length : suffix.length = count) :
    StringHelper.endsWith name suffix = true ↔ compareEnd name count suffix = some true := by
  rw [StringHelper.endsWith_iff, compareEnd_eq_true_iff name count suffix length]

/-- A purge that reads the end of the name finds the same suffix as the rollover. -/
theorem suffixLengthOf_eq {name : LogString} {suffixLength : Nat}
    (read : suffixLengthOf name = some suffixLength) : suffixLength = compressedLength name := by
  have gzipIff := endsWith_iff_compareEnd name ['.', 'g', 'z'] 3 rfl
  have zipIff := endsWith_iff_compareEnd name ['.', 'z', 'i', 'p'] 4 rfl
  simp only [suffixLengthOf, Option.bind_eq_bind, Option.bind_eq_some_iff] at read
  obtain ⟨gzip, gzipRead, read⟩ := read
  rw [compressedLength]
  cases gzip with
  | true =>
      rw [if_pos (gzipIff.mpr gzipRead)]
      exact (Option.some.inj read).symm
  | false =>
      simp only [Bool.false_eq_true, if_false, Option.bind_eq_some_iff] at read
      obtain ⟨zip, zipRead, read⟩ := read
      rw [if_neg (fun ends => by rw [gzipIff, gzipRead] at ends; simp at ends)]
      cases zip with
      | true =>
          rw [if_pos (zipIff.mpr zipRead)]
          exact (Option.some.inj read).symm
      | false =>
          rw [if_neg (fun ends => by rw [zipIff, zipRead] at ends; simp at ends)]
          exact (Option.some.inj read).symm

/-- Only a name of three characters may lack room for the longer suffix. -/
theorem suffixLengthOf_ne_none_iff (name : LogString) :
    suffixLengthOf name ≠ none ↔ 4 ≤ name.length ∨ name = ['.', 'g', 'z'] := by
  rw [suffixLengthOf, compareEnd]
  by_cases short : name.length < 3
  · rw [if_pos short]
    refine iff_of_false (fun found => found rfl) ?_
    rintro (long | rfl)
    · omega
    · simp at short
  · rw [if_neg short, compareEnd]
    by_cases three : name.length = 3
    · rw [if_pos (by omega), three, Nat.sub_self, List.drop_zero]
      by_cases gzip : name = ['.', 'g', 'z']
      · simp [gzip]
      · simp [gzip]
    · rw [if_neg (by omega)]
      refine iff_of_true ?_ (Or.inl (by omega))
      cases name.drop (name.length - 3) == ['.', 'g', 'z'] <;>
        cases name.drop (name.length - 4) == ['.', 'z', 'i', 'p'] <;> simp

/-- A name that is too short for the comparison of `purge` has no suffix of compression. -/
theorem compressedLength_unread {name : LogString} (unread : suffixLengthOf name = none) :
    compressedLength name = 0 := by
  have gzipIff := endsWith_iff_compareEnd name ['.', 'g', 'z'] 3 rfl
  have zipIff := endsWith_iff_compareEnd name ['.', 'z', 'i', 'p'] 4 rfl
  rw [compressedLength]
  split
  · rename_i ends
    simp [suffixLengthOf, gzipIff.mp ends] at unread
  · rename_i noGzip
    split
    · rename_i ends
      have length := ((StringHelper.endsWith_iff _ _).mp ends).length_le
      have gzip : compareEnd name 3 ['.', 'g', 'z'] = some false := by
        rw [gzipIff, compareEnd] at noGzip
        rw [compareEnd]
        split
        · simp only [List.length_cons, List.length_nil] at length
          omega
        · rename_i longEnough
          rw [if_neg longEnough] at noGzip
          simpa using noGzip
      simp [suffixLengthOf, gzip, zipIff.mp ends] at unread
    · rfl

/-- An injective pattern keeps its files apart whether or not a purge can read their suffix. -/
theorem distinctNames_suffixLength (policy : FixedWindowRollingPolicy) {indices : Set Int}
    (injective : Set.InjOn policy.fileNamePattern.formatFileName indices) :
    DistinctNames policy.fileNamePattern policy.suffixLength indices := by
  rw [suffixLength]
  cases read : suffixLengthOf policy.archiveName with
  | none =>
      rw [compressedLength_unread read]
      exact distinctNames_plain policy.fileNamePattern indices injective
  | some length =>
      rw [← suffixLengthOf_eq read]
      exact distinctNames_of_injOn policy.fileNamePattern policy.purgeStart length indices
        injective read

variable {Event : Type}

/-- The latest contents are in the archives of the window, from the lowest index on. -/
structure Archives (policy : FixedWindowRollingPolicy) (indices : Set Int)
    (past : List (Content Event)) (files : Files (Content Event)) : Prop where
  full : ∀ i ∈ indices, policy.purgeStart ≤ i →
    files (policy.fileNamePattern.formatFileName i) =
      if i ≤ policy.maxIndex then
        past[(i - policy.purgeStart).toNat]?.map (Content.packed policy.suffixLength)
      else none
  base : ∀ i ∈ indices, policy.purgeStart ≤ i → 0 < policy.suffixLength →
    files (baseName policy.suffixLength (policy.fileNamePattern.formatFileName i)) = none

/-- The active file has none of the names of the archives. -/
def Apart (policy : FixedWindowRollingPolicy) (indices : Set Int) (name : LogString) : Prop :=
  ∀ i ∈ indices, policy.purgeStart ≤ i →
    ¬ OfIndex policy.fileNamePattern policy.suffixLength i name

section Step

variable {policy : FixedWindowRollingPolicy} {indices : Set Int} {past : List (Content Event)}
  {files : Files (Content Event)}

/-- Work on other files leaves the archives as they are. -/
theorem Archives.congr (archives : Archives policy indices past files)
    {other : Files (Content Event)}
    (same : ∀ i ∈ indices, policy.purgeStart ≤ i → ∀ name,
      OfIndex policy.fileNamePattern policy.suffixLength i name → other name = files name) :
    Archives policy indices past other := by
  constructor
  · intro i inside above
    rw [same i inside above _ (Or.inl rfl)]
    exact archives.full i inside above
  · intro i inside above suffixed
    rw [same i inside above _ (Or.inr rfl)]
    exact archives.base i inside above suffixed

/-- An index of the window is occupied exactly when there is a content for it. -/
theorem Archives.occupied_iff (archives : Archives policy indices past files) {i : Int}
    (inside : i ∈ indices) (above : policy.purgeStart ≤ i) (below : i ≤ policy.maxIndex) :
    Occupied policy.fileNamePattern policy.suffixLength files i ↔
      (i - policy.purgeStart).toNat < past.length := by
  have full := archives.full i inside above
  rw [if_pos below] at full
  rw [Occupied, standing]
  split
  · rename_i missing
    rw [archives.base i inside above missing.1]
    rw [missing.2, eq_comm, Option.map_eq_none_iff, List.getElem?_eq_none_iff] at full
    exact iff_of_false (fun impossible => impossible rfl) (by omega)
  · rw [full, Ne, Option.map_eq_none_iff, List.getElem?_eq_none_iff, Nat.not_le]

/-- An archive stands under its full name. -/
theorem Archives.standing_eq (archives : Archives policy indices past files) {i : Int}
    (inside : i ∈ indices) (above : policy.purgeStart ≤ i)
    (occupied : Occupied policy.fileNamePattern policy.suffixLength files i) :
    standing policy.fileNamePattern policy.suffixLength files i =
        policy.fileNamePattern.formatFileName i ∧
      shifted policy.fileNamePattern policy.suffixLength files i =
        policy.fileNamePattern.formatFileName (i + 1) := by
  have present : ¬ (0 < policy.suffixLength ∧
      files (policy.fileNamePattern.formatFileName i) = none) := by
    intro missing
    rw [Occupied, standing, if_pos missing] at occupied
    exact occupied (archives.base i inside above missing.1)
  exact ⟨by rw [standing, if_neg present], by rw [shifted, if_neg present]⟩

/-- A purge without failures makes room below the archives and drops the last one. -/
theorem Archives.purge (archives : Archives policy indices past files)
    (injective : Set.InjOn policy.fileNamePattern.formatFileName indices)
    (read : suffixLengthOf policy.archiveName = some policy.suffixLength)
    (window : Set.Icc policy.purgeStart policy.maxIndex ⊆ indices)
    (ordered : policy.purgeStart ≤ policy.maxIndex) {fails : FileOperation → Bool}
    (never : ∀ operation, fails operation = false) :
    ∃ result, FixedWindowRollingPolicy.purge policy.fileNamePattern fails policy.purgeStart
        policy.maxIndex files = some result ∧ result.done = true ∧
      (∀ i ∈ indices, policy.purgeStart < i →
        result.store (policy.fileNamePattern.formatFileName i) =
          if i ≤ policy.maxIndex then
            past[(i - policy.purgeStart).toNat - 1]?.map (Content.packed policy.suffixLength)
          else none) ∧
      (∀ i ∈ indices, policy.purgeStart ≤ i → 0 < policy.suffixLength →
        result.store (baseName policy.suffixLength (policy.fileNamePattern.formatFileName i)) =
          none) ∧
      ∀ name, Apart policy indices name → result.store name = files name := by
  obtain ⟨result, purged, done, shifts, frame, unwritten⟩ :=
    purge_works files injective read window ordered never
  have distinct := policy.distinctNames_suffixLength injective
  refine ⟨result, purged, done, ?_, ?_, ?_⟩
  · intro i inside above
    split
    · rename_i below
      have before : i - 1 ∈ indices := window ⟨by omega, by omega⟩
      have occupied := archives.occupied_iff before (by omega) (by omega)
      have index : (i - 1 - policy.purgeStart).toNat = (i - policy.purgeStart).toNat - 1 := by
        omega
      by_cases run : (i - 1 - policy.purgeStart).toNat < past.length
      · have reaches : Reaches policy.fileNamePattern policy.suffixLength policy.purgeStart files
            (i - 1) := by
          refine ⟨by omega, fun k from' upTo => ?_⟩
          exact (archives.occupied_iff (window ⟨from', by omega⟩) from' (by omega)).mpr (by omega)
        have moved := shifts.moved (i - 1) (by omega) reaches
        obtain ⟨here, next⟩ := archives.standing_eq before (by omega) (occupied.mpr run)
        rw [here, next, sub_add_cancel] at moved
        rw [moved, archives.full (i - 1) before (by omega), if_pos (by omega), index]
      · have unmoved := shifts.others i inside (Or.inr (Or.inr ⟨i - 1, by omega, by omega,
          occupied.not.mpr run⟩)) _ (Or.inl rfl)
        rw [unmoved, archives.full i inside (by omega), if_pos below,
          List.getElem?_eq_none (by omega), List.getElem?_eq_none (by omega)]
    · rename_i beyond
      rw [shifts.others i inside (Or.inr (Or.inl (by omega))) _ (Or.inl rfl),
        archives.full i inside (by omega), if_neg beyond]
  · intro i inside above suffixed
    refine (unwritten _ fun j from' upTo occupied same => ?_).elim
      (fun same => same.trans (archives.base i inside above suffixed)) id
    rw [(archives.standing_eq (window ⟨from', by omega⟩) from' occupied).2] at same
    exact distinct.cross (j + 1) (window ⟨by omega, by omega⟩) i inside suffixed same.symm
  · intro name apart
    exact frame name fun i from' upTo => apart i (window ⟨from', upTo⟩) from'

/-- A rollover whose operations work puts the active content in front of the others. -/
theorem Archives.rollover {self : RollingFileAppender Event} {content : Content Event}
    (archives : Archives policy indices past self.files) (opened : self.Open)
    (fixed : self.rollingPolicy = .fixedWindow policy)
    (found : self.files self.fileName = some content)
    (injective : Set.InjOn policy.fileNamePattern.formatFileName indices)
    (read : suffixLengthOf policy.archiveName = some policy.suffixLength)
    (window : Set.Icc policy.purgeStart policy.maxIndex ⊆ indices)
    (ordered : policy.purgeStart ≤ policy.maxIndex) (nonnegative : 0 ≤ policy.maxIndex)
    (apart : Apart policy indices self.fileName) (now : Int) {fails : FileOperation → Bool}
    (never : ∀ operation, fails operation = false) :
    ∃ files, self.rollover now fails = self.reopen files false ∧
      Archives policy indices (content.record .footer :: past) (self.reopen files false).files := by
  obtain ⟨result, purged, done, full, base, frame⟩ :=
    archives.purge injective read window ordered never
  have distinct := policy.distinctNames_suffixLength injective
  have lowest : policy.purgeStart ∈ indices := window ⟨le_refl _, ordered⟩
  obtain ⟨files, rolled, archive, leftover, others⟩ :=
    ({ self with files := result.store } : RollingFileAppender Event).rolloverSameFile_archives
      fails opened.writer ((frame _ apart).trans found)
      (RollingFileAppender.archiveNames_compressedLength policy.archiveName) (never _)
      fun _ => ⟨never _, never _⟩
  refine ⟨files, (RollingFileAppender.rollover_purged fixed now fails nonnegative purged
    done).trans rolled, ?_⟩
  have untouched : ∀ i ∈ indices, policy.purgeStart ≤ i → ∀ name,
      OfIndex policy.fileNamePattern policy.suffixLength i name →
        (self.reopen files false).files name = files name := by
    intro i inside above name ofI
    exact RollingFileAppender.reopened_other _ _ fun same => apart i inside above (same ▸ ofI)
  -- Above the lowest index the rollover only sees what the purge has left there.
  have higher : ∀ i ∈ indices, policy.purgeStart < i → ∀ name,
      OfIndex policy.fileNamePattern policy.suffixLength i name →
        files name = result.store name := by
    intro i inside above name ofI
    have different : ∀ other,
        OfIndex policy.fileNamePattern policy.suffixLength policy.purgeStart other →
          name ≠ other := by
      rintro _ ofLow rfl
      exact absurd (OfIndex.unique distinct inside lowest ofI ofLow) (by omega)
    exact others name (fun same => apart i inside (by omega) (same ▸ ofI))
      (different _ (Or.inr rfl)) (different _ (Or.inl rfl))
  refine Archives.congr ⟨?_, ?_⟩ untouched
  · intro i inside above
    rcases above.eq_or_lt with rfl | above
    · rw [if_pos ordered, sub_self]
      exact archive
    · rw [higher i inside above _ (Or.inl rfl), full i inside above]
      obtain ⟨n, index⟩ : ∃ n, (i - policy.purgeStart).toNat = n + 1 :=
        ⟨(i - policy.purgeStart).toNat - 1, by omega⟩
      rw [index, List.getElem?_cons_succ, Nat.add_sub_cancel]
  · intro i inside above suffixed
    rcases above.eq_or_lt with rfl | above
    · have gone := leftover suffixed
      rwa [never, if_neg Bool.false_ne_true] at gone
    · rw [higher i inside above _ (Or.inr rfl), base i inside above.le suffixed]

end Step

end FixedWindowRollingPolicy

end CodeCollect.Log4cxx
