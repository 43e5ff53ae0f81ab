import CodeCollect.Log4cxx.FixedWindowRollingPolicy

namespace CodeCollect.Log4cxx.FixedWindowRollingPolicy

open CodeCollect.Library

/-- The files of different indices have different names, whether compressed or not. -/
structure DistinctNames (pattern : FileNamePattern) (suffixLength : Nat) (indices : Set Int) :
    Prop where
  full : ∀ i ∈ indices, ∀ j ∈ indices,
    pattern.formatFileName i = pattern.formatFileName j → i = j
  base : ∀ i ∈ indices, ∀ j ∈ indices, baseName suffixLength (pattern.formatFileName i) =
    baseName suffixLength (pattern.formatFileName j) → i = j
  cross : ∀ i ∈ indices, ∀ j ∈ indices, 0 < suffixLength →
    pattern.formatFileName i ≠ baseName suffixLength (pattern.formatFileName j)

theorem compareEnd_eq_true_iff (name : LogString) (count : Nat) (suffix : LogString)
    (length : suffix.length = count) :
    compareEnd name count suffix = some true ↔ suffix <:+ name := by
  rw [compareEnd]
  split
  · rename_i short
    refine iff_of_false (by simp) fun suffixed => ?_
    have bound := suffixed.length_le
    omega
  · rw [Option.some.injEq, beq_iff_eq, ← length, List.suffix_iff_eq_drop, eq_comm]

/-- A suffix of this length is on every name of the pattern, and it holds the letter z once. -/
theorem suffix_of_suffixLengthOf (pattern : FileNamePattern) (low : Int) (suffixLength : Nat)
    (read : suffixLengthOf (pattern.formatFileName low) = some suffixLength)
    (suffixed : 0 < suffixLength) :
    ∃ suffix : LogString, suffix.length = suffixLength ∧ suffix.count 'z' = 1 ∧
      ∀ i, suffix <:+ pattern.formatFileName i := by
  have everywhere : ∀ suffix : LogString,
      (∀ c ∈ suffix, ¬ (c = '-' ∨ c = ' ' ∨ c.isDigit = true)) →
      suffix <:+ pattern.formatFileName low → ∀ i, suffix <:+ pattern.formatFileName i :=
    fun suffix literal ends i =>
      (FileNamePattern.sameEnd_formatFileName pattern low i suffix literal).mp ends
  simp only [suffixLengthOf, Option.bind_eq_bind, Option.bind_eq_some_iff] at read
  obtain ⟨gzip, gzipRead, read⟩ := read
  cases gzip with
  | true =>
      obtain rfl : 3 = suffixLength := by simpa using read
      refine ⟨['.', 'g', 'z'], rfl, by decide, everywhere _ (by simp) ?_⟩
      exact (compareEnd_eq_true_iff _ 3 _ rfl).mp gzipRead
  | false =>
      simp only [Bool.false_eq_true, if_false, Option.bind_eq_some_iff] at read
      obtain ⟨zip, zipRead, read⟩ := read
      cases zip with
      | true =>
          obtain rfl : 4 = suffixLength := by simpa using read
          refine ⟨['.', 'z', 'i', 'p'], rfl, by decide, everywhere _ (by simp) ?_⟩
          exact (compareEnd_eq_true_iff _ 4 _ rfl).mp zipRead
      | false =>
          obtain rfl : 0 = suffixLength := by simpa using read
          exact absurd suffixed (Nat.lt_irrefl 0)

theorem baseName_append (suffix name : LogString) (ends : suffix <:+ name) :
    name = baseName suffix.length name ++ suffix := by
  obtain ⟨front, rfl⟩ := ends
  rw [baseName, List.length_append, if_neg (by omega), Nat.add_sub_cancel, List.take_left]

/-- Without a suffix the name of an index is its only file. -/
theorem distinctNames_plain (pattern : FileNamePattern) (indices : Set Int)
    (injective : Set.InjOn pattern.formatFileName indices) : DistinctNames pattern 0 indices := by
  refine ⟨fun i iInside j jInside same => injective iInside jInside same, ?_,
    fun _ _ _ _ suffixed => absurd suffixed (Nat.lt_irrefl 0)⟩
  intro i iInside j jInside same
  rw [baseName_zero, baseName_zero] at same
  exact injective iInside jInside same

/-- An injective pattern keeps all files of its indices apart. -/
theorem distinctNames_of_injOn (pattern : FileNamePattern) (low : Int) (suffixLength : Nat)
    (indices : Set Int) (injective : Set.InjOn pattern.formatFileName indices)
    (read : suffixLengthOf (pattern.formatFileName low) = some suffixLength) :
    DistinctNames pattern suffixLength indices := by
  rcases Nat.eq_zero_or_pos suffixLength with rfl | suffixed
  · exact distinctNames_plain pattern indices injective
  · obtain ⟨suffix, rfl, letter, ends⟩ :=
      suffix_of_suffixLengthOf pattern low suffixLength read suffixed
    have split := fun i => baseName_append suffix (pattern.formatFileName i) (ends i)
    refine ⟨fun i iInside j jInside same => injective iInside jInside same, ?_, ?_⟩
    · intro i iInside j jInside same
      apply injective iInside jInside
      rw [split i, split j, same]
    · intro i _ j _ _ same
      -- The full name holds the letter z once more than every base name.
      have counts := pattern.count_formatFileName i j 'z' (by decide)
      have ofJ := congrArg (List.count 'z') (split j)
      rw [List.count_append, letter, ← same] at ofJ
      omega

section Purge

variable {Content : Type} (pattern : FileNamePattern) (suffixLength : Nat)
  (fails : FileOperation → Bool)

/-- A base file may stand for its index only when there is no compressed file. -/
def standing (files : Files Content) (i : Int) : LogString :=
  if 0 < suffixLength ∧ files (pattern.formatFileName i) = none then
    baseName suffixLength (pattern.formatFileName i)
  else pattern.formatFileName i

/-- The next index gives its name to the file, which stays compressed or not. -/
def shifted (files : Files Content) (i : Int) : LogString :=
  if 0 < suffixLength ∧ files (pattern.formatFileName i) = none then
    baseName suffixLength (pattern.formatFileName (i + 1))
  else pattern.formatFileName (i + 1)

def Occupied (files : Files Content) (i : Int) : Prop :=
  files (standing pattern suffixLength files i) ≠ none

/-- A base file is left over beside its compressed sibling. -/
def Sibling (files : Files Content) (i : Int) : Prop :=
  0 < suffixLength ∧ files (pattern.formatFileName i) ≠ none ∧
    files (baseName suffixLength (pattern.formatFileName i)) ≠ none

/-- The loop collects these renames, in the order of their indices. -/
def renamesFrom (files : Files Content) (i : Int) (count : Nat) : List FileRenameAction :=
  (List.range count).map fun k : Nat =>
    ⟨standing pattern suffixLength files (i + k), shifted pattern suffixLength files (i + k)⟩

/-- The name belongs to the index. -/
def OfIndex (i : Int) (name : LogString) : Prop :=
  name = pattern.formatFileName i ∨ name = baseName suffixLength (pattern.formatFileName i)

/-- The loop tries to delete a base file that it finds beside its compressed sibling. -/
def sweep (files : Files Content) (i : Int) : Files Content :=
  if 0 < suffixLength && File.exists' files (pattern.formatFileName i) &&
      File.exists' files (baseName suffixLength (pattern.formatFileName i)) then
    (File.deleteFile fails files (baseName suffixLength (pattern.formatFileName i))).2
  else files

variable {pattern suffixLength fails}

theorem standing_ofIndex (files : Files Content) (i : Int) :
    OfIndex pattern suffixLength i (standing pattern suffixLength files i) := by
  rw [standing]
  split
  · exact Or.inr rfl
  · exact Or.inl rfl

theorem shifted_ofIndex (files : Files Content) (i : Int) :
    OfIndex pattern suffixLength (i + 1) (shifted pattern suffixLength files i) := by
  rw [shifted]
  split
  · exact Or.inr rfl
  · exact Or.inl rfl

/-- A name belongs to one index only. -/
theorem OfIndex.unique {indices : Set Int} (distinct : DistinctNames pattern suffixLength indices)
    {i j : Int} {name : LogString} (iInside : i ∈ indices) (jInside : j ∈ indices)
    (ofI : OfIndex pattern suffixLength i name) (ofJ : OfIndex pattern suffixLength j name) :
    i = j := by
  have unsuffixed : ∀ index, ¬ 0 < suffixLength →
      baseName suffixLength (pattern.formatFileName index) = pattern.formatFileName index := by
    intro index none
    rw [Nat.eq_zero_of_not_pos none, baseName_zero]
  rcases ofI with rfl | rfl
  · rcases ofJ with same | same
    · exact distinct.full i iInside j jInside same
    · by_cases suffixed : 0 < suffixLength
      · exact absurd same (distinct.cross i iInside j jInside suffixed)
      · exact distinct.full i iInside j jInside (same.trans (unsuffixed j suffixed))
  · rcases ofJ with same | same
    · by_cases suffixed : 0 < suffixLength
      · exact absurd same.symm (distinct.cross j jInside i iInside suffixed)
      · exact distinct.full i iInside j jInside ((unsuffixed i suffixed).symm.trans same)
    · exact distinct.base i iInside j jInside same

/-- The file that stands for an index is the only one there, or it has a sibling. -/
theorem eq_standing_or_sibling (files : Files Content) (i : Int) (name : LogString)
    (ofI : OfIndex pattern suffixLength i name) (found : files name ≠ none) :
    name = standing pattern suffixLength files i ∨
      Sibling pattern suffixLength files i ∧
        name = baseName suffixLength (pattern.formatFileName i) := by
  rw [standing]
  rcases ofI with rfl | rfl
  · left
    rw [if_neg fun missing => found missing.2]
  · by_cases suffixed : 0 < suffixLength
    · by_cases missing : files (pattern.formatFileName i) = none
      · exact Or.inl (if_pos ⟨suffixed, missing⟩).symm
      · exact Or.inr ⟨⟨suffixed, missing, found⟩, rfl⟩
    · left
      rw [if_neg fun missing => suffixed missing.1, Nat.eq_zero_of_not_pos suffixed,
        baseName_zero]

theorem occupied_of_found (files : Files Content) (i : Int) (name : LogString)
    (ofI : OfIndex pattern suffixLength i name) (found : files name ≠ none) :
    Occupied pattern suffixLength files i := by
  rcases eq_standing_or_sibling files i name ofI found with rfl | ⟨sibling, _⟩
  · exact found
  · rw [Occupied, standing, if_neg fun missing => sibling.2.1 missing.2]
    exact sibling.2.1

/-- A compressed file and its base are two files. -/
theorem Sibling.standing_ne {indices : Set Int}
    (distinct : DistinctNames pattern suffixLength indices) {files : Files Content} {i : Int}
    (inside : i ∈ indices) (sibling : Sibling pattern suffixLength files i) :
    standing pattern suffixLength files i ≠
      baseName suffixLength (pattern.formatFileName i) := by
  rw [standing, if_neg fun missing => sibling.2.1 missing.2]
  exact distinct.cross i inside i inside sibling.1

theorem sweep_apply (files : Files Content) (i : Int) (name : LogString) :
    sweep pattern suffixLength fails files i name = files name ∨
      sweep pattern suffixLength fails files i name = none ∧
        Sibling pattern suffixLength files i ∧
        name = baseName suffixLength (pattern.formatFileName i) ∧
        fails (.deleteFile name) = false := by
  rw [sweep]
  split
  · rename_i both
    simp only [File.exists', Bool.and_eq_true, decide_eq_true_eq, Option.isSome_iff_ne_none]
      at both
    rw [File.deleteFile_apply]
    split
    · rename_i deleted
      obtain ⟨rfl, free⟩ := deleted
      exact Or.inr ⟨rfl, ⟨both.1.1, both.1.2, both.2⟩, rfl, free⟩
    · exact Or.inl rfl
  · exact Or.inl rfl

/-- The sweep frees the name of a base file unless the deletion fails. -/
theorem sweep_sibling (files : Files Content) (i : Int)
    (sibling : Sibling pattern suffixLength files i)
    (free : fails (.deleteFile (baseName suffixLength (pattern.formatFileName i))) = false) :
    sweep pattern suffixLength fails files i
      (baseName suffixLength (pattern.formatFileName i)) = none := by
  rw [sweep, if_pos, File.deleteFile_apply, if_pos ⟨rfl, free⟩]
  simp [File.exists', sibling.1, Option.isSome_iff_ne_none.mpr sibling.2.1,
    Option.isSome_iff_ne_none.mpr sibling.2.2]

/-- Two stores with the same files at an index say the same about it. -/
theorem standing_congr {files other : Files Content} {i : Int}
    (same : ∀ name, OfIndex pattern suffixLength i name → other name = files name) :
    standing pattern suffixLength other i = standing pattern suffixLength files i ∧
      shifted pattern suffixLength other i = shifted pattern suffixLength files i ∧
      (Occupied pattern suffixLength other i ↔ Occupied pattern suffixLength files i) ∧
      (Sibling pattern suffixLength other i ↔ Sibling pattern suffixLength files i) := by
  have full := same _ (Or.inl rfl)
  have base := same _ (Or.inr rfl)
  have standingSame : standing pattern suffixLength other i =
      standing pattern suffixLength files i := by
    rw [standing, standing, full]
  refine ⟨standingSame, by rw [shifted, shifted, full], ?_, by rw [Sibling, Sibling, full, base]⟩
  rw [Occupied, Occupied, standingSame, same _ (standing_ofIndex files i)]

/-- The loop body looks for the file that stands for the index. -/
theorem collectRenames_body (remaining : Nat) (i : Int) (files : Files Content) :
    collectRenames pattern fails suffixLength remaining i files =
      if File.exists' files (standing pattern suffixLength files i) then
        match remaining with
        | 0 =>
            let deleted := File.deleteFile fails (sweep pattern suffixLength fails files i)
              (standing pattern suffixLength files i)
            (deleted.2, if deleted.1 then some [] else none)
        | remaining + 1 =>
            let rest := collectRenames pattern fails suffixLength remaining (i + 1)
              (sweep pattern suffixLength fails files i)
            (rest.1, rest.2.map fun renames =>
              ⟨standing pattern suffixLength files i, shifted pattern suffixLength files i⟩ ::
                renames)
      else (sweep pattern suffixLength fails files i, some []) := by
  have isBase : (decide (0 < suffixLength) &&
      !File.exists' files (pattern.formatFileName i)) = true ↔
        0 < suffixLength ∧ files (pattern.formatFileName i) = none := by
    simp [File.exists']
  cases remaining with
  | zero =>
      simp only [collectRenames, isBase, standing, sweep]
      rfl
  | succ remaining =>
      simp only [collectRenames, isBase, standing, shifted, sweep]
      rfl

theorem occupied_iff (files : Files Content) (i : Int) :
    Occupied pattern suffixLength files i ↔
      File.exists' files (standing pattern suffixLength files i) = true :=
  Option.isSome_iff_ne_none.symm

/-- A free index has nothing to sweep. -/
theorem sweep_of_free (files : Files Content) (i : Int)
    (free : ¬ Occupied pattern suffixLength files i) :
    sweep pattern suffixLength fails files i = files := by
  funext name
  rcases sweep_apply files i name with same | ⟨_, sibling, _⟩
  · exact same
  · exact absurd (occupied_of_found files i _ (Or.inl rfl) sibling.2.1) free

/-- The loop stops behind the run of occupied indices or at the last index. -/
structure Collected (pattern : FileNamePattern) (suffixLength : Nat)
    (fails : FileOperation → Bool) (files : Files Content) (i : Int) (remaining : Nat)
    (left : Files Content) (renames : Option (List FileRenameAction)) (count : Nat) : Prop where
  bound : count ≤ remaining
  occupied : ∀ k : Nat, k < count → Occupied pattern suffixLength files (i + k)
  stops : ¬ Occupied pattern suffixLength files (i + count) ∧
      renames = some (renamesFrom pattern suffixLength files i count) ∨
    count = remaining ∧ Occupied pattern suffixLength files (i + remaining) ∧
      renames = if fails (.deleteFile (standing pattern suffixLength files (i + remaining))) then
        none else some (renamesFrom pattern suffixLength files i count)
  kept : ∀ name, left name = files name ∨ left name = none ∧
    ((∃ k : Nat, k ≤ count ∧ Sibling pattern suffixLength files (i + k) ∧
        name = baseName suffixLength (pattern.formatFileName (i + k)) ∧
        fails (.deleteFile name) = false) ∨
      count = remaining ∧ Occupied pattern suffixLength files (i + remaining) ∧
        name = standing pattern suffixLength files (i + remaining))
  swept : Sibling pattern suffixLength files i →
    fails (.deleteFile (baseName suffixLength (pattern.formatFileName i))) = false →
      left (baseName suffixLength (pattern.formatFileName i)) = none
  deleted : count = remaining → Occupied pattern suffixLength files (i + remaining) →
    fails (.deleteFile (standing pattern suffixLength files (i + remaining))) = false →
      left (standing pattern suffixLength files (i + remaining)) = none

/-- A free index ends the loop. -/
theorem collected_free (files : Files Content) (i : Int) (remaining : Nat)
    (free : ¬ Occupied pattern suffixLength files i) :
    Collected pattern suffixLength fails files i remaining files (some []) 0 := by
  have here : ¬ Occupied pattern suffixLength files (i + (0 : Nat)) := by simpa using free
  refine ⟨Nat.zero_le _, fun k impossible => absurd impossible (Nat.not_lt_zero k),
    Or.inl ⟨here, rfl⟩, fun _ => Or.inl rfl, ?_, ?_⟩
  · intro sibling
    exact absurd (occupied_of_found files i _ (Or.inl rfl) sibling.2.1) free
  · rintro rfl occupied
    exact absurd occupied here

/-- The last index loses its file when the deletion works. -/
theorem collected_last {indices : Set Int} (distinct : DistinctNames pattern suffixLength indices)
    (files : Files Content) (i : Int) (inside : i ∈ indices)
    (occupied : Occupied pattern suffixLength files i) :
    Collected pattern suffixLength fails files i 0
      (File.deleteFile fails (sweep pattern suffixLength fails files i)
        (standing pattern suffixLength files i)).2
      (if (File.deleteFile fails (sweep pattern suffixLength fails files i)
        (standing pattern suffixLength files i)).1 then some [] else none) 0 := by
  have last : i + ((0 : Nat) : Int) = i := by simp
  have sameStanding : sweep pattern suffixLength fails files i
      (standing pattern suffixLength files i) ≠ none := by
    rcases sweep_apply files i (standing pattern suffixLength files i) with same | swept
    · rw [same]
      exact occupied
    · exact absurd swept.2.2.1 (swept.2.1.standing_ne distinct inside)
  refine ⟨Nat.le_refl _, fun k impossible => absurd impossible (Nat.not_lt_zero k), ?_, ?_, ?_, ?_⟩
  · right
    rw [last]
    refine ⟨rfl, occupied, ?_⟩
    have done := File.deleteFile_done fails (sweep pattern suffixLength fails files i)
      (standing pattern suffixLength files i)
    cases failed : fails (.deleteFile (standing pattern suffixLength files i)) with
    | true => rw [if_neg (by simp [done, failed]), if_pos rfl]
    | false =>
        rw [if_pos (done.mpr ⟨failed, sameStanding⟩), if_neg (by simp)]
        rfl
  · intro name
    rw [File.deleteFile_apply]
    split
    · rename_i deleted
      exact Or.inr ⟨rfl, Or.inr ⟨rfl, by rwa [last], by rw [last]; exact deleted.1⟩⟩
    · rcases sweep_apply files i name with same | ⟨gone, sibling, base, free⟩
      · exact Or.inl same
      · refine Or.inr ⟨gone, Or.inl ⟨0, Nat.le_refl _, by rwa [last], by rwa [last], free⟩⟩
  · intro sibling free
    rw [File.deleteFile_apply]
    split
    · rfl
    · exact sweep_sibling files i sibling free
  · intro _ _ free
    rw [last] at free ⊢
    rw [File.deleteFile_apply, if_pos ⟨rfl, free⟩]

/-- An occupied index adds its rename in front of those of the higher indices. -/
theorem collected_next {indices : Set Int} (distinct : DistinctNames pattern suffixLength indices)
    (files : Files Content) (i : Int) (remaining : Nat)
    (inside : ∀ k : Nat, k ≤ remaining + 1 → i + k ∈ indices)
    (occupied : Occupied pattern suffixLength files i) (left : Files Content)
    (renames : Option (List FileRenameAction)) (count : Nat)
    (rest : Collected pattern suffixLength fails (sweep pattern suffixLength fails files i) (i + 1)
      remaining left renames count) :
    Collected pattern suffixLength fails files i (remaining + 1) left
      (renames.map fun renames =>
        ⟨standing pattern suffixLength files i, shifted pattern suffixLength files i⟩ :: renames)
      (count + 1) := by
  have here : i ∈ indices := by simpa using inside 0 (Nat.zero_le _)
  have index : ∀ k : Nat, i + 1 + (k : Int) = i + ((k + 1 : Nat) : Int) := by
    intro k
    push_cast
    omega
  -- The sweep of this index leaves the files of the higher indices alone.
  have higher : ∀ k : Nat, k ≤ remaining → ∀ name,
      OfIndex pattern suffixLength (i + ((k + 1 : Nat) : Int)) name →
        sweep pattern suffixLength fails files i name = files name := by
    intro k bound name ofHigher
    rcases sweep_apply files i name with same | ⟨_, _, base, _⟩
    · exact same
    · have impossible := OfIndex.unique distinct here (inside (k + 1) (by omega)) (Or.inr base)
        ofHigher
      omega
  have congr := fun (k : Nat) (bound : k ≤ remaining) => standing_congr (higher k bound)
  have bound := rest.bound
  refine ⟨by omega, ?_, ?_, ?_, ?_, ?_⟩
  · intro k small
    cases k with
    | zero => simpa using occupied
    | succ k =>
        have later := rest.occupied k (by omega)
        rw [index] at later
        exact (congr k (by omega)).2.2.1.mp later
  · have renamesSame : (renamesFrom pattern suffixLength
        (sweep pattern suffixLength fails files i) (i + 1) count) =
          (List.range count).map fun k : Nat => ⟨standing pattern suffixLength files
            (i + ((k + 1 : Nat) : Int)), shifted pattern suffixLength files
            (i + ((k + 1 : Nat) : Int))⟩ := by
      refine List.map_congr_left fun k member => ?_
      rw [index, (congr k (by simp at member; omega)).1, (congr k (by simp at member; omega)).2.1]
    have cons : renamesFrom pattern suffixLength files i (count + 1) =
        ⟨standing pattern suffixLength files i, shifted pattern suffixLength files i⟩ ::
          renamesFrom pattern suffixLength (sweep pattern suffixLength fails files i) (i + 1)
            count := by
      rw [renamesSame, renamesFrom, List.range_succ_eq_map, List.map_cons, List.map_map]
      simp only [Nat.cast_zero, add_zero]
      rfl
    rw [cons]
    rcases rest.stops with ⟨free, rfl⟩ | ⟨rfl, last, rfl⟩
    · left
      rw [index] at free
      exact ⟨fun there => free ((congr count (by omega)).2.2.1.mpr there), rfl⟩
    · right
      rw [index] at last ⊢
      refine ⟨rfl, (congr count (by omega)).2.2.1.mp last, ?_⟩
      rw [(congr count (by omega)).1]
      split <;> rfl
  · intro name
    rcases rest.kept name with same | ⟨gone, dropped⟩
    · rcases sweep_apply files i name with unswept | ⟨gone, sibling, base, free⟩
      · exact Or.inl (same.trans unswept)
      · exact Or.inr ⟨same.trans gone, Or.inl ⟨0, Nat.zero_le _, by simpa using sibling,
          by simpa using base, free⟩⟩
    · refine Or.inr ⟨gone, ?_⟩
      rcases dropped with ⟨k, small, sibling, base, free⟩ | ⟨rfl, last, standing⟩
      · rw [index] at sibling base
        exact Or.inl ⟨k + 1, by omega, (congr k (by omega)).2.2.2.mp sibling, base, free⟩
      · rw [index] at last standing
        exact Or.inr ⟨rfl, (congr count (by omega)).2.2.1.mp last,
          standing.trans (congr count (by omega)).1⟩
  · intro sibling free
    have gone := sweep_sibling files i sibling free
    rcases rest.kept (baseName suffixLength (pattern.formatFileName i)) with same | ⟨gone, _⟩
    · exact same.trans gone
    · exact gone
  · intro all last free
    obtain rfl : count = remaining := by omega
    have same := congr count (by omega)
    have gone := rest.deleted rfl (by rw [index]; exact same.2.2.1.mpr last)
      (by rw [index, same.1]; exact free)
    rwa [index, same.1] at gone

/-- Every way through the loop ends as described. -/
theorem collectRenames_spec {indices : Set Int}
    (distinct : DistinctNames pattern suffixLength indices) (remaining : Nat) (i : Int)
    (files : Files Content) (inside : ∀ k : Nat, k ≤ remaining → i + k ∈ indices) :
    ∃ count, Collected pattern suffixLength fails files i remaining
      (collectRenames pattern fails suffixLength remaining i files).1
      (collectRenames pattern fails suffixLength remaining i files).2 count := by
  induction remaining generalizing i files with
  | zero =>
      rw [collectRenames_body]
      by_cases occupied : Occupied pattern suffixLength files i
      · rw [if_pos ((occupied_iff files i).mp occupied)]
        exact ⟨0, collected_last distinct files i (by simpa using inside 0 (Nat.le_refl _))
          occupied⟩
      · rw [if_neg ((occupied_iff files i).not.mp occupied), sweep_of_free files i occupied]
        exact ⟨0, collected_free files i 0 occupied⟩
  | succ remaining ih =>
      rw [collectRenames_body]
      by_cases occupied : Occupied pattern suffixLength files i
      · rw [if_pos ((occupied_iff files i).mp occupied)]
        obtain ⟨count, rest⟩ := ih (i + 1) (sweep pattern suffixLength fails files i) (by
          intro k bound
          have member := inside (k + 1) (by omega)
          push_cast at member
          rwa [add_assoc, add_comm 1])
        exact ⟨count + 1, collected_next distinct files i remaining inside occupied _ _ _ rest⟩
      · rw [if_neg ((occupied_iff files i).not.mp occupied), sweep_of_free files i occupied]
        exact ⟨0, collected_free files i _ occupied⟩

end Purge

end CodeCollect.Log4cxx.FixedWindowRollingPolicy
